import TaiSkeleton.AccessControl.PolicyBody
import TaiSkeleton.Lib.Run
import TaiSkeleton.Versioning.Operations

/-!
# The history of a policy

Each mutation of a policy commits in the access-control store, and then writes what it has
committed to the user's document of the `ac_policy` history: by a read of the active version and
an append, or, for a rollback, by moving the pointer. A statement or a transaction that holds the
row's lock to its end is one step. The calls are those on one user, and the runs those in which no
call raises.
-/

namespace TaiSkeleton.AccessControl

open Lib Versioning

variable {υ : Type}

/-- A mutation of the user's policy. -/
inductive Call (υ : Type) where
  /-- `create_api_key` -/
  | create (scopes : List String) (policyData : Option (Members υ)) (keyFingerprint : υ)
      (owner : Option υ) (condition conditionId : Option String)
      (conditionKwargs : Option (Members υ))
  /-- `edit_api_key` -/
  | edit (updates : PolicyUpdates υ)
  /-- `rollback_policy` -/
  | rollback (version : ℕ)
  /-- `remove_scope`, or `remove_url_from_scope` of a last url. -/
  | removeScope (scope : String)
  | applyRole (role : RoleDefinition υ)
deriving DecidableEq

/-- Where a call stands. -/
inductive Task (υ : Type) where
  | idle
  | calling (call : Call υ)
  /-- `edit_api_key`: the owner is not changed. -/
  | editing (updates : PolicyUpdates υ)
  /-- `rollback_policy` has read its version. -/
  | restoring (version : ℕ) (target : PolicyBody υ)
  /-- `apply_role` has read the policy data. -/
  | applying (role : RoleDefinition υ) (policyData : Members υ)
  /-- `apply_role` has found no row. -/
  | inserting (role : RoleDefinition υ) (policyData : Members υ)
  /-- `_record_policy_version`, before its read of the active version. -/
  | recording (body : PolicyBody υ)
  | founding (body : PolicyBody υ)
  | saving (body : PolicyBody υ)
  /-- The history's pointer is to be moved to the version that was restored. -/
  | repointing (version : ℕ) (body : PolicyBody υ)
  | ended
deriving DecidableEq

namespace Task

/-- What a call has committed that is not yet in the history. -/
def unrecorded : Task υ → Option (PolicyBody υ)
  | recording body | founding body | saving body | repointing _ body => some body
  | _ => none

/-- The body that a rollback is about to restore. -/
def restores : Task υ → Option (PolicyBody υ)
  | restoring _ target => some target
  | _ => none

/-- No call is on its way. -/
def atRest : Task υ → Bool
  | idle | ended => true
  | _ => false

end Task

structure World (υ : Type) where
  /-- The user's row of `access_control_policies`. -/
  policy : Option (PolicyBody υ)
  /-- The user's `ac_policy` document. -/
  history : Option (Document (PolicyBody υ))
  tasks : ℕ → Task υ
  /-- The calls that have committed and are not recorded yet, in the order of their commits. -/
  unrecorded : List ℕ

inductive Label (υ : Type) where
  | call (n : ℕ) (call : Call υ)
  | step (n : ℕ)
deriving DecidableEq

/-- The call that a step is of. -/
def Label.id : Label υ → ℕ
  | .call n _ | .step n => n

namespace World

variable (s : World υ)

def goOn (n : ℕ) (task : Task υ) : World υ := { s with tasks := Function.update s.tasks n task }

/-- A call has committed a body. -/
def commit (n : ℕ) (body : PolicyBody υ) (task : Task υ) : World υ :=
  { s.goOn n task with policy := some body, unrecorded := s.unrecorded ++ [n] }

/-- A call has written its body to the history. -/
def recorded (n : ℕ) (doc : Document (PolicyBody υ)) : World υ :=
  { s.goOn n .ended with history := some doc, unrecorded := s.unrecorded.erase n }

/-- The active version of the history has the enforced body. -/
def InStep : Prop :=
  ∀ body, s.policy = some body → ∃ doc, s.history = some doc ∧ doc.activeBody = some body

/-- Before the calls the history is in step. -/
def First : Prop :=
  (∀ n, s.tasks n = .idle) ∧ s.unrecorded = [] ∧ (∀ doc, s.history = some doc → doc.WellFormed) ∧
    s.InStep

variable [DecidableEq υ]

/-- The first step of a call; `none` where it raises. -/
def begin (n : ℕ) : Call υ → Option (World υ)
  | .create scopes policyData keyFingerprint owner condition conditionId conditionKwargs =>
    match s.policy with
    | some _ => none
    | none =>
      let body := createPolicy scopes (some (mintPolicyData policyData keyFingerprint owner))
        condition conditionId conditionKwargs
      some (s.commit n body (.recording body))
  | .edit updates =>
    match updates.policyData with
    | none => some (s.goOn n (.editing updates))
    | some new =>
      match s.policy with
      | none => none
      | some body =>
        if ownerOf (new.getD ∅) = ownerOf body.policyData then some (s.goOn n (.editing updates))
        else none
  | .rollback version =>
    match s.history.bind fun doc => doc.bodyAt version with
    | none => none
    | some target => some (s.goOn n (.restoring version target))
  | .removeScope scope =>
    match s.policy with
    | none => some (s.goOn n .ended)
    | some body =>
      if scope ∈ body.scopes then
        some (s.commit n (stripScope scope body) (.recording (stripScope scope body)))
      else some (s.goOn n .ended)
  | .applyRole role =>
    if role.assignable then
      some (s.goOn n (.applying role (role.point
        ((s.policy.map PolicyBody.policyData).getD ∅))))
    else none

/-- The next step of a call. -/
def stepTask (n : ℕ) : Task υ → Option (World υ)
  | .idle | .ended => none
  | .calling call => s.begin n call
  | .editing updates =>
    match s.policy with
    | none => none
    | some body =>
      some (s.commit n (updatePolicyFields updates body)
        (.recording (updatePolicyFields updates body)))
  | .restoring version target =>
    match s.policy with
    | none => none
    | some body => some (s.commit n (restorePolicyBody target body)
        (.repointing version (restorePolicyBody target body)))
  | .applying role policyData =>
    match s.policy with
    | none => some (s.goOn n (.inserting role policyData))
    | some body =>
      let updated := updatePolicyFields (role.updates policyData) body
      some (s.commit n updated (.recording updated))
  | .inserting role policyData =>
    match s.policy with
    | some _ => none
    | none => some (s.commit n (role.body policyData) (.recording (role.body policyData)))
  | .recording body =>
    match s.history with
    | none => some (s.goOn n (.founding body))
    | some doc =>
      if doc.activeBody = some body then some (s.recorded n doc)
      else some (s.goOn n (.saving body))
  | .founding body =>
    match s.history with
    | some _ => none
    | none => some (s.recorded n (.create "ac_policy" "" body))
  | .saving body =>
    match s.history with
    | none => none
    | some doc => some (s.recorded n (doc.saveVersion body))
  | .repointing version _ =>
    match s.history with
    | none => none
    | some doc => if version ∈ doc.numbers then some (s.recorded n (doc.rollback version)) else none

/-- The world after a step, where there is such a step. -/
def next : Label υ → Option (World υ)
  | .call n call => if s.tasks n = .idle then some (s.goOn n (.calling call)) else none
  | .step n => s.stepTask n (s.tasks n)

end World

/-- Every interleaving of the mutations of a user's policy. -/
def policyMutations (υ : Type) [DecidableEq υ] : System (World υ) (Label υ) where
  init := World.First
  step s a s' := s.next a = some s'

/-! ## In order -/

/-- A call writes to the history only when every call that has committed before it is through,
and a rollback restores a version of the live key. -/
def InOrder (s : World υ) : Label υ → Prop
  | .call _ _ => True
  | .step n =>
    ((s.tasks n).unrecorded.isSome = true → s.unrecorded.head? = some n) ∧
      ∀ target ∈ (s.tasks n).restores, ∀ body ∈ s.policy, CarriesKeyOf target body

/-- The runs in which every step is in order. -/
def orderedMutations (υ : Type) [DecidableEq υ] : System (World υ) (Label υ) :=
  (policyMutations υ).when InOrder

structure OrderInv (s : World υ) : Prop where
  wellFormed : ∀ doc, s.history = some doc → doc.WellFormed
  nodup : s.unrecorded.Nodup
  pending : ∀ n, n ∈ s.unrecorded ↔ (s.tasks n).unrecorded.isSome = true
  settled : s.unrecorded = [] → s.InStep
  /-- The enforced body is what was committed last. -/
  last : ∀ n body, s.unrecorded.getLast? = some n → s.policy = some body →
    (s.tasks n).unrecorded = some body
  restoring : ∀ n version target, s.tasks n = .restoring version target →
    ∃ doc, s.history = some doc ∧ doc.bodyAt version = some target
  repointing : ∀ n version body, s.tasks n = .repointing version body →
    ∃ doc, s.history = some doc ∧ doc.bodyAt version = some body

namespace OrderInv

variable {s s' : World υ} {n : ℕ} {task : Task υ}

/-- A call goes on that has the same to record as before. -/
theorem goOn (h : OrderInv s) (hsame : task.unrecorded = (s.tasks n).unrecorded)
    (hrestoring : ∀ version target, task = .restoring version target →
      ∃ doc, s.history = some doc ∧ doc.bodyAt version = some target)
    (hrepointing : ∀ version body, task ≠ .repointing version body) : OrderInv (s.goOn n task) := by
  have hall : ∀ n', ((s.goOn n task).tasks n').unrecorded = (s.tasks n').unrecorded := by
    intro n'
    show (Function.update s.tasks n task n').unrecorded = _
    rw [Function.update_apply]
    split_ifs with hn
    · rw [hn, hsame]
    · rfl
  refine ⟨h.wellFormed, h.nodup, fun n' => ?_, h.settled, fun n' body hlast hbody => ?_,
    fun n' version target heq => ?_, fun n' version body heq => ?_⟩
  · rw [hall]
    exact h.pending n'
  · exact (hall n').trans (h.last n' body hlast hbody)
  · change Function.update s.tasks n task n' = _ at heq
    rw [Function.update_apply] at heq
    split_ifs at heq with hn
    · exact hrestoring version target heq
    · exact h.restoring n' version target heq
  · change Function.update s.tasks n task n' = _ at heq
    rw [Function.update_apply] at heq
    split_ifs at heq with hn
    · exact absurd heq (hrepointing version body)
    · exact h.repointing n' version body heq

/-- A call commits. -/
theorem commit {body : PolicyBody υ} (h : OrderInv s) (hbefore : (s.tasks n).unrecorded = none)
    (hafter : task.unrecorded = some body)
    (hrepointing : ∀ version body, task = .repointing version body →
      ∃ doc, s.history = some doc ∧ doc.bodyAt version = some body) :
    OrderInv (s.commit n body task) := by
  have hnew : n ∉ s.unrecorded := by
    rw [h.pending, hbefore]
    simp
  have hself : ((s.commit n body task).tasks n) = task := Function.update_self _ _ _
  have hother : ∀ n', n' ≠ n → (s.commit n body task).tasks n' = s.tasks n' :=
    fun n' hne => Function.update_of_ne hne _ _
  refine ⟨h.wellFormed, ?_, fun n' => ?_, fun hnil => ?_, fun n' body' hlast hbody => ?_,
    fun n' version target heq => ?_, fun n' version body' heq => ?_⟩
  · exact List.nodup_append.mpr ⟨h.nodup, List.nodup_singleton n, fun a ha b hb => by
      rw [List.mem_singleton.mp hb]
      rintro rfl
      exact hnew ha⟩
  · show n' ∈ s.unrecorded ++ [n] ↔ _
    rw [List.mem_append, List.mem_singleton]
    by_cases hn : n' = n
    · subst hn
      simp [hself, hafter]
    · rw [hother n' hn, h.pending]
      simp [hn]
  · exact absurd hnil (List.append_ne_nil_of_right_ne_nil _ (List.cons_ne_nil n []))
  · obtain rfl := Option.some.inj hbody
    change (s.unrecorded ++ [n]).getLast? = some n' at hlast
    rw [List.getLast?_concat] at hlast
    obtain rfl := Option.some.inj hlast
    rw [hself]
    exact hafter
  · by_cases hn : n' = n
    · subst hn
      rw [hself] at heq
      rw [heq] at hafter
      cases hafter
    · exact h.restoring n' version target (hother n' hn ▸ heq)
  · by_cases hn : n' = n
    · subst hn
      exact hrepointing version body' (hself ▸ heq)
    · exact h.repointing n' version body' (hother n' hn ▸ heq)

/-- The first of the calls that have committed is recorded. -/
theorem recorded {body : PolicyBody υ} {doc : Document (PolicyBody υ)} (h : OrderInv s)
    (hbefore : (s.tasks n).unrecorded = some body) (hhead : s.unrecorded.head? = some n)
    (hdoc : doc.WellFormed) (hactive : doc.activeBody = some body)
    (hkept : ∀ doc' version body', s.history = some doc' → doc'.bodyAt version = some body' →
      doc.bodyAt version = some body') : OrderInv (s.recorded n doc) := by
  obtain ⟨rest, hrest⟩ := List.head?_eq_some_iff.mp hhead
  have hnodup := h.nodup
  rw [hrest, List.nodup_cons] at hnodup
  have hleft : (s.recorded n doc).unrecorded = rest := by
    show s.unrecorded.erase n = rest
    rw [hrest, List.erase_cons_head]
  have hself : (s.recorded n doc).tasks n = .ended := Function.update_self _ _ _
  have hother : ∀ n', n' ≠ n → (s.recorded n doc).tasks n' = s.tasks n' :=
    fun n' hne => Function.update_of_ne hne _ _
  have hversion : ∀ version body', (∃ doc', s.history = some doc' ∧
      doc'.bodyAt version = some body') → ∃ doc', (s.recorded n doc).history = some doc' ∧
        doc'.bodyAt version = some body' := by
    rintro version body' ⟨doc', hdoc', hbody⟩
    exact ⟨doc, rfl, hkept doc' version body' hdoc' hbody⟩
  refine ⟨fun doc' hdoc' => Option.some.inj hdoc' ▸ hdoc, hleft ▸ hnodup.2, fun n' => ?_,
    fun hnil body' hbody => ?_, fun n' body' hlast hbody => ?_, fun n' version target heq => ?_,
    fun n' version body' heq => ?_⟩
  · rw [hleft]
    by_cases hn : n' = n
    · subst hn
      rw [hself]
      simpa [Task.unrecorded] using hnodup.1
    · rw [hother n' hn, ← h.pending, hrest, List.mem_cons]
      simp [hn]
  · rw [hleft] at hnil
    have hlast : s.unrecorded.getLast? = some n := by
      rw [hrest, hnil]
      rfl
    exact ⟨doc, rfl, hactive.trans (hbefore.symm.trans (h.last n body' hlast hbody))⟩
  · rw [hleft] at hlast
    have hn : n' ≠ n := fun heq => hnodup.1 (heq ▸ List.mem_of_getLast? hlast)
    rw [hother n' hn]
    refine h.last n' body' ?_ hbody
    rw [hrest, List.getLast?_cons, hlast]
    rfl
  · by_cases hn : n' = n
    · rw [hn, hself] at heq
      cases heq
    · exact hversion _ _ (h.restoring n' version target (hother n' hn ▸ heq))
  · by_cases hn : n' = n
    · rw [hn, hself] at heq
      cases heq
    · exact hversion _ _ (h.repointing n' version body' (hother n' hn ▸ heq))

theorem first (h : s.First) : OrderInv s := by
  obtain ⟨hidle, hnil, hwellFormed, hinStep⟩ := h
  refine ⟨hwellFormed, hnil ▸ List.nodup_nil, fun n => ?_, fun _ => hinStep,
    fun n body hlast => ?_, fun n version target heq => ?_, fun n version body heq => ?_⟩
  · rw [hnil, hidle]
    simp [Task.unrecorded]
  · rw [hnil] at hlast
    cases hlast
  · rw [hidle] at heq
    cases heq
  · rw [hidle] at heq
    cases heq

variable [DecidableEq υ]

/-- The first step of a call. -/
theorem begin {call : Call υ} (h : OrderInv s) (htask : s.tasks n = .calling call)
    (hstep : s.begin n call = some s') : OrderInv s' := by
  have hbefore : (s.tasks n).unrecorded = none := by rw [htask]; rfl
  cases call with
  | create scopes policyData keyFingerprint owner condition conditionId conditionKwargs =>
    simp only [World.begin] at hstep
    split at hstep
    · cases hstep
    · obtain rfl := Option.some.inj hstep
      exact h.commit hbefore rfl fun version body heq => by cases heq
  | edit updates =>
    have hediting : OrderInv (s.goOn n (.editing updates)) :=
      h.goOn hbefore.symm (fun version target heq => by cases heq)
        fun version body heq => by cases heq
    simp only [World.begin] at hstep
    split at hstep
    · exact Option.some.inj hstep ▸ hediting
    · split at hstep
      · cases hstep
      · split_ifs at hstep
        exact Option.some.inj hstep ▸ hediting
  | rollback version =>
    simp only [World.begin] at hstep
    split at hstep
    · cases hstep
    · rename_i target hread
      obtain rfl := Option.some.inj hstep
      refine h.goOn hbefore.symm (fun version' target' heq => ?_)
        fun version body heq => by cases heq
      obtain ⟨rfl, rfl⟩ := Task.restoring.inj heq
      exact Option.bind_eq_some_iff.mp hread
  | removeScope scope =>
    have hended : OrderInv (s.goOn n .ended) :=
      h.goOn hbefore.symm (fun version target heq => by cases heq)
        fun version body heq => by cases heq
    simp only [World.begin] at hstep
    split at hstep
    · exact Option.some.inj hstep ▸ hended
    · split_ifs at hstep
      · obtain rfl := Option.some.inj hstep
        exact h.commit hbefore rfl fun version body heq => by cases heq
      · exact Option.some.inj hstep ▸ hended
  | applyRole role =>
    simp only [World.begin] at hstep
    split_ifs at hstep
    obtain rfl := Option.some.inj hstep
    exact h.goOn hbefore.symm (fun version target heq => by cases heq)
        fun version body heq => by cases heq

theorem step {a : Label υ} (h : OrderInv s) (hok : InOrder s a) (hstep : s.next a = some s') :
    OrderInv s' := by
  cases a with
  | call n call =>
    simp only [World.next, Option.ite_none_right_eq_some, Option.some.injEq] at hstep
    obtain ⟨hidle, rfl⟩ := hstep
    exact h.goOn (by rw [hidle]; rfl) (fun version target heq => by cases heq)
      fun version body heq => by cases heq
  | step n =>
    obtain ⟨hhead, hkey⟩ := hok
    change s.stepTask n (s.tasks n) = some s' at hstep
    cases htask : s.tasks n with
    | idle | ended =>
      rw [htask] at hstep
      cases hstep
    | calling call =>
      rw [htask] at hstep
      exact h.begin htask hstep
    | editing updates =>
      have hbefore : (s.tasks n).unrecorded = none := by rw [htask]; rfl
      simp only [htask, World.stepTask] at hstep
      split at hstep
      · cases hstep
      · obtain rfl := Option.some.inj hstep
        exact h.commit hbefore rfl fun version body heq => by cases heq
    | restoring version target =>
      have hbefore : (s.tasks n).unrecorded = none := by rw [htask]; rfl
      simp only [htask, World.stepTask] at hstep
      split at hstep
      · cases hstep
      · rename_i body hpolicy
        obtain rfl := Option.some.inj hstep
        refine h.commit hbefore rfl fun version' body' heq => ?_
        obtain ⟨rfl, rfl⟩ := Task.repointing.inj heq
        rw [restorePolicyBody_of_carriesKeyOf (hkey target (by rw [htask]; rfl) body hpolicy)]
        exact h.restoring n version target htask
    | applying role policyData =>
      have hbefore : (s.tasks n).unrecorded = none := by rw [htask]; rfl
      simp only [htask, World.stepTask] at hstep
      split at hstep
      · obtain rfl := Option.some.inj hstep
        exact h.goOn hbefore.symm (fun version target heq => by cases heq)
          fun version body heq => by cases heq
      · obtain rfl := Option.some.inj hstep
        exact h.commit hbefore rfl fun version body heq => by cases heq
    | inserting role policyData =>
      have hbefore : (s.tasks n).unrecorded = none := by rw [htask]; rfl
      simp only [htask, World.stepTask] at hstep
      split at hstep
      · cases hstep
      · obtain rfl := Option.some.inj hstep
        exact h.commit hbefore rfl fun version body heq => by cases heq
    | recording body =>
      have hbefore : (s.tasks n).unrecorded = some body := by rw [htask]; rfl
      have hfirst := hhead (by rw [hbefore]; rfl)
      simp only [htask, World.stepTask] at hstep
      split at hstep
      · obtain rfl := Option.some.inj hstep
        exact h.goOn hbefore.symm (fun version target heq => by cases heq)
          fun version body heq => by cases heq
      · rename_i doc hdoc
        split_ifs at hstep with hactive
        · obtain rfl := Option.some.inj hstep
          exact h.recorded hbefore hfirst (h.wellFormed doc hdoc) hactive
            fun doc' version body' hdoc' hbody => Option.some.inj (hdoc'.symm.trans hdoc) ▸ hbody
        · obtain rfl := Option.some.inj hstep
          exact h.goOn hbefore.symm (fun version target heq => by cases heq)
            fun version body heq => by cases heq
    | founding body =>
      have hbefore : (s.tasks n).unrecorded = some body := by rw [htask]; rfl
      simp only [htask, World.stepTask] at hstep
      split at hstep
      · cases hstep
      · rename_i hnone
        obtain rfl := Option.some.inj hstep
        refine h.recorded hbefore (hhead (by rw [hbefore]; rfl)) Document.create_wellFormed
          Document.activeBody_create fun doc' version body' hdoc' hbody => ?_
        rw [hnone] at hdoc'
        cases hdoc'
    | saving body =>
      have hbefore : (s.tasks n).unrecorded = some body := by rw [htask]; rfl
      simp only [htask, World.stepTask] at hstep
      split at hstep
      · cases hstep
      · rename_i doc hdoc
        obtain rfl := Option.some.inj hstep
        have hdocWf := h.wellFormed doc hdoc
        refine h.recorded hbefore (hhead (by rw [hbefore]; rfl)) hdocWf.saveVersion
          (Document.activeBody_saveVersion hdocWf) fun doc' version body' hdoc' hbody => ?_
        obtain rfl := Option.some.inj (hdoc'.symm.trans hdoc)
        exact Document.bodyAt_saveVersion hbody
    | repointing version body =>
      have hbefore : (s.tasks n).unrecorded = some body := by rw [htask]; rfl
      simp only [htask, World.stepTask] at hstep
      split at hstep
      · cases hstep
      · rename_i doc hdoc
        split_ifs at hstep with hversion
        obtain rfl := Option.some.inj hstep
        obtain ⟨doc', hdoc', hbody⟩ := h.repointing n version body htask
        obtain rfl := Option.some.inj (hdoc'.symm.trans hdoc)
        exact h.recorded hbefore (hhead (by rw [hbefore]; rfl))
          ((h.wellFormed doc' hdoc).point hversion) hbody
          fun doc'' version' body' hdoc'' hbody' =>
            Option.some.inj (hdoc''.symm.trans hdoc) ▸ hbody'

end OrderInv

/-- The history follows the enforced policy: it is in step when no call is on its way. -/
def Follows (s : World υ) : Prop := (∀ n, (s.tasks n).atRest = true) → s.InStep

/-- However many mutations come in between each other, the history is in step once all have
returned, where each writes to it in the order of the commits and no rollback revives a key. -/
theorem follows_of_inOrder [DecidableEq υ] {s : World υ}
    (h : (orderedMutations υ).Reachable s) : Follows s := by
  have hinv : OrderInv s := by
    refine h.invariant ?_ ?_
    · exact fun s hfirst => .first hfirst
    · exact fun s a s' hinv hstep => hinv.step hstep.1 hstep.2
  intro hrest
  refine hinv.settled (List.eq_nil_iff_forall_not_mem.mpr fun n hmem => ?_)
  have hpending := (hinv.pending n).mp hmem
  have hatRest := hrest n
  cases htask : s.tasks n <;> rw [htask] at hpending hatRest <;> cases hpending <;> cases hatRest

variable [DecidableEq υ]

instance (s : World υ) (a : Label υ) : Decidable (InOrder s a) := by
  cases a with
  | call n call => exact .isTrue trivial
  | step n => exact inferInstanceAs (Decidable (_ ∧ _))

/-- A step is of one call. -/
theorem World.tasks_of_next {s s' : World υ} {a : Label υ} {n : ℕ} (hstep : s.next a = some s')
    (hne : n ≠ a.id) : s'.tasks n = s.tasks n := by
  have hgoOn : ∀ task, (s.goOn a.id task).tasks n = s.tasks n :=
    fun task => Function.update_of_ne hne _ _
  cases a with
  | call m call =>
    simp only [World.next, Option.ite_none_right_eq_some, Option.some.injEq] at hstep
    obtain ⟨-, rfl⟩ := hstep
    exact hgoOn _
  | step m =>
    change s.stepTask m (s.tasks m) = some s' at hstep
    cases htask : s.tasks m with
    | calling call =>
      rw [htask] at hstep
      cases call <;> simp only [World.stepTask, World.begin] at hstep <;> repeat' split at hstep
      all_goals first
        | exact Option.some.inj hstep ▸ hgoOn _
        | cases hstep
    | _ =>
      simp only [htask, World.stepTask] at hstep
      repeat' split at hstep
      all_goals first
        | exact Option.some.inj hstep ▸ hgoOn _
        | cases hstep

/-- The calls that no step has been of have not begun. -/
theorem idle_of_below {s : World υ} {k : ℕ}
    (h : ((policyMutations υ).when fun _ a => a.id < k).Reachable s) :
    ∀ n, k ≤ n → s.tasks n = .idle := by
  refine h.invariant (p := fun s => ∀ n, k ≤ n → s.tasks n = .idle) ?_ ?_
  · exact fun s hfirst n _ => hfirst.1 n
  · intro s a s' hidle ⟨hlt, hstep⟩ n hle
    have hne : n ≠ a.id := by
      have hlt : a.id < k := hlt
      omega
    rw [World.tasks_of_next hstep hne]
    exact hidle n hle

/-- Nothing is known of the user. -/
def noUser : World String where
  policy := none
  history := none
  tasks _ := .idle
  unrecorded := []

theorem noUser_first : noUser.First :=
  ⟨fun _ => rfl, rfl, (fun _ h => by cases h), (fun _ h => by cases h)⟩

/-- A key is minted, and two edits of its condition have come to their commits. -/
def twoEdits : List (Label String) :=
  .call 0 (.create [] none "k" none none none none) :: List.replicate 3 (.step 0) ++
    [.call 1 (.edit { condition := some (some "a") }),
      .call 2 (.edit { condition := some (some "b") }), .step 1, .step 1, .step 2, .step 2]

/-- The edits are recorded as they were committed, and then the user is rolled back. -/
theorem follows_rollback : ∃ s, (orderedMutations String).Reachable s ∧
    (s.policy.map PolicyBody.condition = some (some "a")) ∧ Follows s := by
  obtain ⟨s, hs, hp⟩ := System.Reachable.of_foldlM (S := orderedMutations String)
    (f := System.guarded (fun s a => s.next a) fun s a => decide (InOrder s a)) (s := noUser)
    (p := fun s => s.policy.map PolicyBody.condition == some (some "a"))
    (l := twoEdits ++ List.replicate 2 (.step 1) ++ List.replicate 2 (.step 2) ++
      .call 3 (.rollback 2) :: List.replicate 3 (.step 3))
    (fun s a s' h => ⟨of_decide_eq_true (System.step_of_guarded h).1,
      (System.step_of_guarded h).2⟩) noUser_first (by decide +kernel)
  exact ⟨s, hs, by simpa using hp, follows_of_inOrder hs⟩

/-- The edits are recorded the other way round. -/
theorem edits_recorded_late : ∃ s, (policyMutations String).Reachable s ∧
    s.policy.map PolicyBody.condition = some (some "b") ∧
    (s.history.bind Document.activeBody).map PolicyBody.condition = some (some "a") ∧
    (∀ n, (s.tasks n).atRest = true) ∧ ¬ Follows s := by
  obtain ⟨s, hs, hp⟩ := System.Reachable.of_foldlM
    (S := (policyMutations String).when fun _ a => a.id < 3)
    (f := System.guarded (fun s a => s.next a) fun _ a => decide (a.id < 3)) (s := noUser)
    (p := fun s => s.policy.map PolicyBody.condition == some (some "b") &&
      (s.history.bind Document.activeBody).map PolicyBody.condition == some (some "a") &&
      (s.tasks 0).atRest && (s.tasks 1).atRest && (s.tasks 2).atRest)
    (l := twoEdits ++ List.replicate 2 (.step 2) ++ List.replicate 2 (.step 1))
    (fun s a s' h => ⟨of_decide_eq_true (System.step_of_guarded h).1,
      (System.step_of_guarded h).2⟩) noUser_first (by decide +kernel)
  simp only [Bool.and_eq_true, beq_iff_eq] at hp
  obtain ⟨⟨⟨⟨hpolicy, hactive⟩, hzero⟩, hone⟩, htwo⟩ := hp
  have hrest : ∀ n, (s.tasks n).atRest = true
    | 0 => hzero
    | 1 => hone
    | 2 => htwo
    | n + 3 => by rw [idle_of_below hs (n + 3) (by omega)]; rfl
  refine ⟨s, hs.of_when, hpolicy, hactive, hrest, fun hfollows => ?_⟩
  obtain ⟨body, hbody, hcondition⟩ := Option.map_eq_some_iff.mp hpolicy
  obtain ⟨doc, hdoc, hsame⟩ := hfollows hrest body hbody
  rw [hdoc, Option.bind_some, hsame, Option.map_some, hcondition] at hactive
  exact absurd hactive (by decide)

end TaiSkeleton.AccessControl
