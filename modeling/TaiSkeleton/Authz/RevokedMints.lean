import TaiSkeleton.AccessControl.PolicyHistory
import TaiSkeleton.Authz.ExecutionKeys
import TaiSkeleton.Lib.VersionedCache

/-!
# Revoked mints

The keys of one user are minted, revoked and minted again, while edits, rollbacks, assignments of
roles and changes of the disabled marker are on their way, and decisions read the policy row through
the cache of their enforcer. The log has the row after every step of a mutation.
-/

namespace TaiSkeleton.Authz

open Lib AccessControl Versioning

/-- What `add_user_api_key` is called with. -/
structure MintRequest where
  scopes : List String
  policyData : Option (Members JsonValue)
  owner : Option JsonValue
  condition : Option String
  conditionId : Option String
  conditionKwargs : Option (Members JsonValue)

/-- The `create_policy` of a mint, with the fingerprint that it has drawn. -/
def MintRequest.create (request : MintRequest) (fingerprint : String) : Call JsonValue :=
  .create request.scopes request.policyData (.str fingerprint) request.owner request.condition
    request.conditionId request.conditionKwargs

/-- Where a call on the user's key stands. A revoke that has deleted the row has with it the
fingerprints that had been stamped until then, and how long the log was. -/
inductive KeyTask where
  | idle
  /-- `add_user_api_key`: the user has no policy row yet. -/
  | checking (request : MintRequest)
  | provisioning (request : MintRequest)
  /-- `revoke_api_key`, before it looks for the identity record. -/
  | revoking
  | deleting
  | incrementing (covered : List String) (since : ℕ)
  | clearing (covered : List String) (since : ℕ)
  | destroying (covered : List String) (since : ℕ)
  /-- The revoke has returned `True`; `destroyed` is the mint of the identity record that it has
  destroyed. -/
  | revoked (covered : List String) (since : ℕ) (destroyed : Option String)
  /-- It has returned `False`. -/
  | absent
  /-- `set_user_disabled`, before its read. -/
  | disabling (disabled : Bool)
  | marking (policyData : Members JsonValue)
  /-- The call goes on among the mutations of the policy. -/
  | mutating

/-- The policy row with the mutations that write it, the identity record by the mint that has
provisioned it, the calls, the fingerprints that mints have drawn and those that they have stamped,
the ones that had been stamped when the row was deleted last, and the decisions; `returned` is how
long the log was at the deletes of the revokes that have returned. -/
structure KeyWorld where
  mutations : World JsonValue
  identity : Option String
  tasks : ℕ → KeyTask
  minted : List String
  stamped : List String
  deleted : List String
  cached : Cached Unit (PolicyBody JsonValue) ℕ
  returned : ℕ

/-- A call, or its next step, with the fingerprint that a mint draws; an increment of the policy
version by a mutation; a decision begins, or takes a step. -/
inductive KeyLabel where
  | mint (n : ℕ) (request : MintRequest)
  | revoke (n : ℕ)
  | setUserDisabled (n : ℕ) (disabled : Bool)
  | step (n : ℕ) (fingerprint : String)
  | mutation (a : Label JsonValue)
  | bump
  | decide (d enforcer : ℕ)
  | read (step : ReadStep Unit ℕ)

/-- The fingerprint that the next step of a call stamps. -/
def stamps : AccessControl.Task JsonValue → Option String
  | .calling (.create _ _ (.str fingerprint) _ _ _ _) => some fingerprint
  | _ => none

/-- The policy data of an assignment that is about to insert a row. -/
def inserts : AccessControl.Task JsonValue → Option (Members JsonValue)
  | .inserting _ policyData => some policyData
  | _ => none

/-- The policy data with the disabled marker set or cleared. -/
def marked (disabled : Bool) (policyData : Members JsonValue) : Members JsonValue :=
  if disabled then policyData.insert "disabled" (some (.bool true))
  else policyData.erase "disabled"

namespace KeyWorld

variable (s : KeyWorld)

/-- The rows in the log. -/
def source : Versioned Unit (PolicyBody JsonValue) := s.cached.source

def setSource (source : Versioned Unit (PolicyBody JsonValue)) : KeyWorld :=
  { s with cached := { s.cached with source := source } }

/-- A step of a mutation, with the row that it leaves. -/
def setMutations (w : World JsonValue) : KeyWorld :=
  { s.setSource (s.source.commit [((), w.policy)]) with mutations := w }

def goOn (n : ℕ) (task : KeyTask) : KeyWorld := { s with tasks := Function.update s.tasks n task }

def begin (n : ℕ) (task : KeyTask) : Option KeyWorld :=
  match s.tasks n with
  | .idle => some (s.goOn n task)
  | _ => none

/-- A mint has provisioned the identity record and drawn its fingerprint. -/
def provision (n : ℕ) (request : MintRequest) (fingerprint : String) : KeyWorld :=
  { s.goOn n .mutating with
    identity := some fingerprint
    minted := fingerprint :: s.minted
    mutations := s.mutations.goOn n (.calling (request.create fingerprint)) }

/-- `delete_policy`, as a step of a revoke. -/
def delete (n : ℕ) : KeyWorld :=
  { (s.setMutations { s.mutations with policy := none }).goOn n
      (.incrementing s.stamped (s.source.log.length + 1)) with deleted := s.stamped }

/-- The last step of a revoke: the identity record is gone, and it returns. -/
def destroy (n : ℕ) (covered : List String) (since : ℕ) : KeyWorld :=
  { s.goOn n (.revoked covered since s.identity) with
    identity := none
    returned := max s.returned since }

/-- The next step of a call; `none` where it raises. -/
def stepTask (n : ℕ) (fingerprint : String) : KeyTask → Option KeyWorld
  | .idle | .revoked .. | .absent | .mutating => none
  | .checking request =>
    match s.mutations.policy with
    | some _ => none
    | none => some (s.goOn n (.provisioning request))
  | .provisioning request =>
    if fingerprint ∈ s.minted then none else some (s.provision n request fingerprint)
  | .revoking => some (s.goOn n (if s.identity.isSome then .deleting else .absent))
  | .deleting => some (s.delete n)
  | .incrementing covered since =>
    some ((s.setSource s.source.bump).goOn n (.clearing covered since))
  | .clearing covered since => some (s.goOn n (.destroying covered since))
  | .destroying covered since => some (s.destroy n covered since)
  | .disabling disabled =>
    match s.mutations.policy with
    | none => none
    | some body => some (s.goOn n (.marking (marked disabled body.policyData)))
  | .marking policyData =>
    match s.mutations.policy with
    | none => none
    | some body =>
      let updated := updatePolicyFields { policyData := some (some policyData) } body
      some ((s.setMutations (s.mutations.commit n updated (.recording updated))).goOn n .mutating)

/-- The next step of a call among the mutations. -/
def stepMutation (n : ℕ) : Option KeyWorld :=
  (s.mutations.next (.step n)).map fun w =>
    { s.setMutations w with
      stamped := (stamps (s.mutations.tasks n)).toList ++ s.stamped }

def callMutation (n : ℕ) : Call JsonValue → Option KeyWorld
  | .create .. => none
  | call =>
    match s.tasks n with
    | .idle => (s.mutations.next (.call n call)).map fun w => (s.setMutations w).goOn n .mutating
    | _ => none

/-- The world after a step, where there is such a step. -/
def next : KeyLabel → Option KeyWorld
  | .mint n request => s.begin n (.checking request)
  | .revoke n => s.begin n .revoking
  | .setUserDisabled n disabled => s.begin n (.disabling disabled)
  | .step n fingerprint => s.stepTask n fingerprint (s.tasks n)
  | .mutation (.call n call) => s.callMutation n call
  | .mutation (.step n) => s.stepMutation n
  | .bump => some (s.setSource s.source.bump)
  | .decide d enforcer =>
    (s.cached.read (.start d enforcer s.returned)).map fun cached => { s with cached := cached }
  | .read (.start ..) => none
  | .read step => (s.cached.read step).map fun cached => { s with cached := cached }

/-- Before the calls and the decisions; the user may have a policy and a key. -/
structure First : Prop where
  tasks : ∀ n, s.tasks n = .idle
  mutations : ∀ n, s.mutations.tasks n = .idle
  stamped : ∀ fingerprint, BearsFingerprint fingerprint s.mutations.policy →
    fingerprint ∈ s.stamped
  minted : ∀ fingerprint, fingerprint ∈ s.stamped ∨ s.identity = some fingerprint →
    fingerprint ∈ s.minted
  deleted : s.deleted = []
  base : s.source.base () = s.mutations.policy
  log : s.source.log = []
  version : s.source.version = 0
  bumpAt : s.source.bumpAt = fun _ => 0
  fetches : s.cached.fetches = fun _ => none
  slots : s.cached.slots = fun _ _ _ => none
  readers : s.cached.readers = fun _ => none
  returned : s.returned = 0

/-- An assignment of a role does not insert policy data of a mint that had been stamped when the row
was deleted, and a revoke destroys no identity record of a mint that had not. -/
def spares (fingerprint : String) : KeyLabel → Bool
  | .mutation (.step n) =>
    (inserts (s.mutations.tasks n)).all fun policyData =>
      keyOf policyData != some (.str fingerprint) || fingerprint ∉ s.deleted
  | .step n _ =>
    match s.tasks n with
    | .destroying covered _ => s.identity != some fingerprint || covered.contains fingerprint
    | _ => true
  | _ => true

end KeyWorld

/-- The runs of the calls on a user's key and of the decisions. -/
def keyMutations : System KeyWorld KeyLabel where
  init := KeyWorld.First
  step s a s' := s.next a = some s'

/-- The call is a revoke of the mint that has returned `True`: it has deleted the row after the mint
had stamped it, or destroyed the identity record that the mint had provisioned. -/
def KeyTask.Revokes (fingerprint : String) : KeyTask → Prop
  | .revoked covered _ destroyed => fingerprint ∈ covered ∨ destroyed = some fingerprint
  | _ => False

/-- Every decision that begins once a revoke of the mint has returned `True` refuses the records
that are bound to the mint, on whatever it reads of the policy row. -/
def NeverFires (S : System KeyWorld KeyLabel) (fingerprint : String) : Prop :=
  ∀ (s s' : KeyWorld) (n d : ℕ) (reader : Reader Unit (PolicyBody JsonValue) ℕ), S.Reachable s →
    (s.tasks n).Revokes fingerprint → S.Run s s' → s.cached.readers d = none →
    s'.cached.readers d = some reader →
    ∀ key, ∀ entry ∈ reader.used, Refuses key fingerprint entry.2.value

/-! ## Where the fingerprint of a row comes from -/

section Mutations

variable {w w' : World JsonValue} {n : ℕ} {fingerprint : String}

/-- What a step of a mutation leaves: it stamps nothing after it, and the fingerprint of the row is
that of the row before, the one that it stamps, or the one that it inserts. -/
structure Stepped (w : World JsonValue) (n : ℕ) (w' : World JsonValue) : Prop where
  spent : stamps (w'.tasks n) = none
  bears : ∀ fingerprint, BearsFingerprint fingerprint w'.policy →
    BearsFingerprint fingerprint w.policy ∨ stamps (w.tasks n) = some fingerprint ∨
      ∃ policyData, inserts (w.tasks n) = some policyData ∧
        keyOf policyData = some (.str fingerprint)

theorem stamps_update (task : AccessControl.Task JsonValue) :
    stamps (Function.update w.tasks n task n) = stamps task :=
  congrArg stamps (Function.update_self n task w.tasks)

theorem Stepped.goOn {task : AccessControl.Task JsonValue} (h : stamps task = none) :
    Stepped w n (w.goOn n task) where
  spent := (stamps_update task).trans h
  bears _ hbears := .inl hbears

theorem Stepped.recorded {doc : Document (PolicyBody JsonValue)} :
    Stepped w n (w.recorded n doc) where
  spent := stamps_update .ended
  bears _ hbears := .inl hbears

/-- A commit of a body that has the key of the row. -/
theorem Stepped.commit {task : AccessControl.Task JsonValue} {body body' : PolicyBody JsonValue}
    (h : stamps task = none) (hbody : w.policy = some body)
    (hkey : keyOf body'.policyData = keyOf body.policyData) :
    Stepped w n (w.commit n body' task) where
  spent := (stamps_update task).trans h
  bears fingerprint hbears := by
    obtain ⟨_, heq, hfingerprint⟩ := hbears
    obtain rfl := Option.some.inj heq
    exact .inl ⟨body, hbody, hkey.symm.trans hfingerprint⟩

theorem stepped_of_begin {call : Call JsonValue} (htask : w.tasks n = .calling call)
    (h : w.begin n call = some w') : Stepped w n w' := by
  cases call with
  | create scopes policyData keyFingerprint owner condition conditionId conditionKwargs =>
    simp only [World.begin] at h
    split at h
    · cases h
    · obtain rfl := Option.some.inj h
      refine ⟨stamps_update (.recording _), fun fingerprint hbears => .inr (.inl ?_)⟩
      obtain ⟨_, heq, hfingerprint⟩ := hbears
      obtain rfl := Option.some.inj heq
      obtain rfl : keyFingerprint = .str fingerprint :=
        Option.some.inj ((keyOf_mintPolicyData policyData keyFingerprint owner).symm.trans
          hfingerprint)
      rw [htask]
      rfl
  | edit updates =>
    simp only [World.begin] at h
    split at h
    · exact Option.some.inj h ▸ .goOn rfl
    · split at h
      · cases h
      · split_ifs at h
        exact Option.some.inj h ▸ .goOn rfl
  | rollback version =>
    simp only [World.begin] at h
    split at h
    · cases h
    · exact Option.some.inj h ▸ .goOn rfl
  | removeScope scope =>
    simp only [World.begin] at h
    split at h
    · exact Option.some.inj h ▸ .goOn rfl
    · next body hbody =>
      split_ifs at h
      · exact Option.some.inj h ▸ .commit rfl hbody rfl
      · exact Option.some.inj h ▸ .goOn rfl
  | applyRole role =>
    simp only [World.begin] at h
    split_ifs at h
    exact Option.some.inj h ▸ .goOn rfl

theorem stepped_of_next (h : w.next (.step n) = some w') : Stepped w n w' := by
  change w.stepTask n (w.tasks n) = some w' at h
  cases htask : w.tasks n with
  | idle | ended =>
    rw [htask] at h
    cases h
  | calling call =>
    rw [htask] at h
    exact stepped_of_begin htask h
  | editing updates =>
    simp only [htask, World.stepTask] at h
    split at h
    · cases h
    · next body hbody =>
      exact Option.some.inj h ▸ .commit rfl hbody (keyOf_updatePolicyFields body updates)
  | restoring version target =>
    simp only [htask, World.stepTask] at h
    split at h
    · cases h
    · next body hbody =>
      exact Option.some.inj h ▸ .commit rfl hbody (keyOf_restorePolicyBody body target)
  | applying role policyData =>
    simp only [htask, World.stepTask] at h
    split at h
    · exact Option.some.inj h ▸ .goOn rfl
    · next body hbody =>
      exact Option.some.inj h ▸ .commit rfl hbody (keyOf_updatePolicyFields body _)
  | inserting role policyData =>
    simp only [htask, World.stepTask] at h
    split at h
    · cases h
    · obtain rfl := Option.some.inj h
      refine ⟨stamps_update (.recording _), fun fingerprint hbears => .inr (.inr ?_)⟩
      obtain ⟨_, heq, hfingerprint⟩ := hbears
      obtain rfl := Option.some.inj heq
      exact ⟨policyData, by rw [htask]; rfl, hfingerprint⟩
  | recording body =>
    simp only [htask, World.stepTask] at h
    split at h
    · exact Option.some.inj h ▸ .goOn rfl
    · split_ifs at h
      · exact Option.some.inj h ▸ .recorded
      · exact Option.some.inj h ▸ .goOn rfl
  | founding body =>
    simp only [htask, World.stepTask] at h
    split at h
    · cases h
    · exact Option.some.inj h ▸ .recorded
  | saving body =>
    simp only [htask, World.stepTask] at h
    split at h
    · cases h
    · exact Option.some.inj h ▸ .recorded
  | repointing version body =>
    simp only [htask, World.stepTask] at h
    split at h
    · cases h
    · split_ifs at h
      exact Option.some.inj h ▸ .recorded

end Mutations

/-! ## No row of a revoked mint -/

section Barred

variable {s s' : KeyWorld} {n k : ℕ} {fingerprint : String}

/-- The fingerprint is stamped once, and not on the row once the row has been deleted after it. -/
structure Barred (fingerprint : String) (s : KeyWorld) : Prop where
  cached : s.cached.Sound
  row : s.source.rowAt s.source.log.length () = s.mutations.policy
  minted : fingerprint ∈ s.stamped → fingerprint ∈ s.minted
  pending : ∀ n, stamps (s.mutations.tasks n) = some fingerprint →
    fingerprint ∈ s.minted ∧ fingerprint ∉ s.stamped
  unique : ∀ n m, stamps (s.mutations.tasks n) = some fingerprint →
    stamps (s.mutations.tasks m) = some fingerprint → n = m
  deleted : fingerprint ∈ s.deleted →
    fingerprint ∈ s.stamped ∧ ¬BearsFingerprint fingerprint s.mutations.policy
  returned : s.returned ≤ s.source.covered

/-- No row in the log from there on is of the mint. -/
structure FreeFrom (fingerprint : String) (k : ℕ) (s : KeyWorld) : Prop where
  deleted : fingerprint ∈ s.deleted
  le : k ≤ s.source.log.length
  free : ∀ m, k ≤ m → m ≤ s.source.log.length →
    ¬BearsFingerprint fingerprint (s.source.rowAt m ())

/-- What a step keeps. -/
structure Grown (fingerprint : String) (s s' : KeyWorld) : Prop where
  source : s.source.Grows s'.source
  length : s'.source.log.length ≤ s.source.log.length + 1
  deleted : fingerprint ∈ s.deleted → fingerprint ∈ s'.deleted
  returned : s.returned ≤ s'.returned

theorem FreeFrom.grow (h : FreeFrom fingerprint k s) (hgrown : Grown fingerprint s s')
    (hs' : Barred fingerprint s') : FreeFrom fingerprint k s' where
  deleted := hgrown.deleted h.deleted
  le := h.le.trans hgrown.source.length_le
  free m hk hm := by
    by_cases hold : m ≤ s.source.log.length
    · rw [hgrown.source.rowAt hold]
      exact h.free m hk hold
    · obtain rfl : m = s'.source.log.length := by
        have := hgrown.length
        omega
      rw [hs'.row]
      exact (hs'.deleted (hgrown.deleted h.deleted)).2

/-- What a revoke has achieved so far. -/
def KeyTask.Holds (fingerprint : String) (s : KeyWorld) : KeyTask → Prop
  | .incrementing covered since =>
    since ≤ s.source.log.length ∧ (fingerprint ∈ covered → FreeFrom fingerprint since s)
  | .clearing covered since | .destroying covered since =>
    since ≤ s.source.covered ∧ (fingerprint ∈ covered → FreeFrom fingerprint since s)
  | .revoked covered since destroyed =>
    since ≤ s.returned ∧ (fingerprint ∈ covered → FreeFrom fingerprint since s) ∧
      (destroyed = some fingerprint → fingerprint ∈ covered)
  | _ => True

theorem KeyTask.Holds.grow {task : KeyTask} (h : task.Holds fingerprint s)
    (hgrown : Grown fingerprint s s') (hs' : Barred fingerprint s') :
    task.Holds fingerprint s' := by
  have hfree : ∀ {covered : List String} {since : ℕ},
      (fingerprint ∈ covered → FreeFrom fingerprint since s) →
        fingerprint ∈ covered → FreeFrom fingerprint since s' :=
    fun hfree hmem => (hfree hmem).grow hgrown hs'
  have hcovered : s.source.covered ≤ s'.source.covered := hgrown.source.covered_le hs'.cached.source
  cases task with
  | incrementing covered since => exact ⟨h.1.trans hgrown.source.length_le, hfree h.2⟩
  | clearing covered since | destroying covered since => exact ⟨h.1.trans hcovered, hfree h.2⟩
  | revoked covered since destroyed => exact ⟨h.1.trans hgrown.returned, hfree h.2.1, h.2.2⟩
  | _ => trivial

structure RevokeInv (fingerprint : String) (s : KeyWorld) : Prop where
  barred : Barred fingerprint s
  tasks : ∀ n, (s.tasks n).Holds fingerprint s

/-- A step keeps the invariant whose own call, if any, holds what it should. -/
theorem RevokeInv.grow (h : RevokeInv fingerprint s) (hgrown : Grown fingerprint s s')
    (hs' : Barred fingerprint s')
    (htasks : ∀ n, s'.tasks n = s.tasks n ∨ (s'.tasks n).Holds fingerprint s') :
    RevokeInv fingerprint s' where
  barred := hs'
  tasks n := by
    obtain hsame | hholds := htasks n
    · rw [hsame]
      exact (h.tasks n).grow hgrown hs'
    · exact hholds

theorem goOn_tasks {task : KeyTask} {p : KeyTask → Prop} (hp : p task) (m : ℕ) :
    (s.goOn n task).tasks m = s.tasks m ∨ p ((s.goOn n task).tasks m) := by
  have htasks : (s.goOn n task).tasks m = if m = n then task else s.tasks m :=
    Function.update_apply ..
  rw [htasks]
  split_ifs
  · exact .inr hp
  · exact .inl rfl

/-! ### The rows -/

theorem setMutations_row (w : World JsonValue) :
    (s.setMutations w).source.rowAt (s.setMutations w).source.log.length () = w.policy := by
  show (s.source.commit [((), w.policy)]).rowAt (s.source.commit [((), w.policy)]).log.length () = _
  rw [Versioned.rowAt_commit]
  simp [Versioned.write]

theorem setMutations_length (w : World JsonValue) :
    (s.setMutations w).source.log.length = s.source.log.length + 1 := Versioned.length_commit

/-- A step of a mutation. -/
theorem Barred.setMutations (h : Barred fingerprint s) {w : World JsonValue}
    (stamped : List String)
    (hpending : ∀ m, stamps (w.tasks m) = some fingerprint →
      stamps (s.mutations.tasks m) = some fingerprint ∧ fingerprint ∉ stamped)
    (hminted : fingerprint ∈ stamped → fingerprint ∈ s.minted)
    (hstamped : fingerprint ∈ s.stamped → fingerprint ∈ stamped)
    (hdeleted : fingerprint ∈ s.deleted → ¬BearsFingerprint fingerprint w.policy) :
    Barred fingerprint { s.setMutations w with stamped := stamped } where
  cached := h.cached.grow Versioned.grows_commit h.cached.source.commit
  row := setMutations_row w
  minted := hminted
  pending m hm := ⟨(h.pending m (hpending m hm).1).1, (hpending m hm).2⟩
  unique m m' hm hm' := h.unique m m' (hpending m hm).1 (hpending m' hm').1
  deleted hmem := ⟨hstamped (h.deleted hmem).1, hdeleted hmem⟩
  returned := h.returned.trans
    (Versioned.grows_commit.covered_le h.cached.source.commit)

theorem grown_setMutations {w : World JsonValue} {stamped : List String} :
    Grown fingerprint s { s.setMutations w with stamped := stamped } where
  source := Versioned.grows_commit
  length := (setMutations_length w).le
  deleted := id
  returned := le_rfl

theorem Barred.goOn (h : Barred fingerprint s) {task : KeyTask} :
    Barred fingerprint (s.goOn n task) :=
  ⟨h.cached, h.row, h.minted, h.pending, h.unique, h.deleted, h.returned⟩

theorem grown_goOn {task : KeyTask} : Grown fingerprint s (s.goOn n task) :=
  ⟨⟨rfl, List.prefix_rfl, le_rfl, fun _ _ => rfl⟩, Nat.le_succ _, id, le_rfl⟩

/-- A call goes on that has no rows to answer for. -/
theorem RevokeInv.goOn (h : RevokeInv fingerprint s) {task : KeyTask}
    (htask : task.Holds fingerprint (s.goOn n task)) :
    RevokeInv fingerprint (s.goOn n task) :=
  h.grow grown_goOn h.barred.goOn (goOn_tasks (p := KeyTask.Holds fingerprint _) htask)

theorem Barred.bump (h : Barred fingerprint s) :
    Barred fingerprint (s.setSource s.source.bump) where
  cached := h.cached.grow Versioned.grows_bump h.cached.source.bump
  row := h.row
  minted := h.minted
  pending := h.pending
  unique := h.unique
  deleted := h.deleted
  returned := h.returned.trans (Versioned.grows_bump.covered_le h.cached.source.bump)

theorem grown_bump : Grown fingerprint s (s.setSource s.source.bump) :=
  ⟨Versioned.grows_bump, Nat.le_succ _, id, le_rfl⟩

/-! ### The steps -/

/-- A call that stamps nothing goes on among the mutations. -/
theorem stamps_of_goOn {w : World JsonValue} (task : AccessControl.Task JsonValue)
    (htask : stamps task = none) {m : ℕ}
    (h : stamps ((w.goOn n task).tasks m) = some fingerprint) :
    stamps (w.tasks m) = some fingerprint := by
  change stamps (Function.update w.tasks n task m) = some fingerprint at h
  rw [Function.update_apply] at h
  split_ifs at h
  · rw [htask] at h
    cases h
  · exact h

theorem RevokeInv.bump (h : RevokeInv fingerprint s) :
    RevokeInv fingerprint (s.setSource s.source.bump) :=
  h.grow grown_bump h.barred.bump fun _ => .inl rfl

theorem RevokeInv.provision (h : RevokeInv fingerprint s) {request : MintRequest} {drawn : String}
    (hfresh : drawn ∉ s.minted) : RevokeInv fingerprint (s.provision n request drawn) := by
  have hpending : ∀ m, stamps ((s.provision n request drawn).mutations.tasks m) =
      some fingerprint → (m = n ∧ drawn = fingerprint) ∨
        (m ≠ n ∧ stamps (s.mutations.tasks m) = some fingerprint) := by
    intro m hm
    change stamps (Function.update s.mutations.tasks n (.calling (request.create drawn)) m) =
      some fingerprint at hm
    rw [Function.update_apply] at hm
    split_ifs at hm with heq
    · exact .inl ⟨heq, Option.some.inj hm⟩
    · exact .inr ⟨heq, hm⟩
  have hold : ∀ m, stamps (s.mutations.tasks m) = some fingerprint → drawn ≠ fingerprint := by
    rintro m hm rfl
    exact hfresh (h.barred.pending m hm).1
  have hbarred : Barred fingerprint (s.provision n request drawn) :=
    { cached := h.barred.cached
      row := h.barred.row
      minted := fun hmem => List.mem_cons_of_mem _ (h.barred.minted hmem)
      pending := by
        intro m hm
        obtain ⟨-, rfl⟩ | ⟨-, hm⟩ := hpending m hm
        · exact ⟨List.mem_cons_self, fun hmem => hfresh (h.barred.minted hmem)⟩
        · obtain ⟨hminted, hnot⟩ := h.barred.pending m hm
          exact ⟨List.mem_cons_of_mem _ hminted, hnot⟩
      unique := by
        intro m m' hm hm'
        obtain ⟨heq, hdrawn⟩ | ⟨-, hbefore⟩ := hpending m hm <;>
          obtain ⟨heq', hdrawn'⟩ | ⟨-, hbefore'⟩ := hpending m' hm'
        · exact heq.trans heq'.symm
        · exact absurd hdrawn (hold m' hbefore')
        · exact absurd hdrawn' (hold m hbefore)
        · exact h.barred.unique m m' hbefore hbefore'
      deleted := h.barred.deleted
      returned := h.barred.returned }
  have hgrown : Grown fingerprint s (s.provision n request drawn) :=
    ⟨⟨rfl, List.prefix_rfl, le_rfl, fun _ _ => rfl⟩, Nat.le_succ _, id, le_rfl⟩
  exact h.grow hgrown hbarred
    (goOn_tasks (p := KeyTask.Holds fingerprint (s.provision n request drawn)) trivial)

/-- The row is deleted: whatever has been stamped until then is on no row from there on. -/
theorem RevokeInv.delete (h : RevokeInv fingerprint s) : RevokeInv fingerprint (s.delete n) := by
  have hnone : ¬BearsFingerprint fingerprint none := by
    rintro ⟨body, hbody, -⟩
    cases hbody
  have hrow := setMutations_row (s := s) { s.mutations with policy := none }
  have hlength := setMutations_length (s := s) { s.mutations with policy := none }
  have hset : Barred fingerprint (s.setMutations { s.mutations with policy := none }) :=
    h.barred.setMutations s.stamped
      (fun m hm => ⟨hm, (h.barred.pending m hm).2⟩) h.barred.minted id fun _ => hnone
  have hbarred : Barred fingerprint (s.delete n) :=
    ⟨hset.cached, hset.row, hset.minted, hset.pending, hset.unique, fun hmem => ⟨hmem, hnone⟩,
      hset.returned⟩
  have hgrown : Grown fingerprint s (s.delete n) :=
    ⟨Versioned.grows_commit, hlength.le, fun hmem => (h.barred.deleted hmem).1, le_rfl⟩
  refine h.grow hgrown hbarred (goOn_tasks (p := KeyTask.Holds fingerprint (s.delete n))
    ⟨hlength.ge, fun hmem => ⟨hmem, hlength.ge, fun m hm hle => ?_⟩⟩)
  obtain rfl : m = (s.setMutations { s.mutations with policy := none }).source.log.length :=
    le_antisymm hle (hlength.le.trans hm)
  exact hrow ▸ hnone

theorem RevokeInv.destroy (h : RevokeInv fingerprint s) {covered : List String} {since : ℕ}
    (htask : s.tasks n = .destroying covered since)
    (hidentity : s.identity = some fingerprint → fingerprint ∈ covered) :
    RevokeInv fingerprint (s.destroy n covered since) := by
  have hholds := h.tasks n
  rw [htask] at hholds
  have hbarred : Barred fingerprint (s.destroy n covered since) :=
    ⟨h.barred.cached, h.barred.row, h.barred.minted, h.barred.pending, h.barred.unique,
      h.barred.deleted, max_le h.barred.returned hholds.1⟩
  have hgrown : Grown fingerprint s (s.destroy n covered since) :=
    ⟨⟨rfl, List.prefix_rfl, le_rfl, fun _ _ => rfl⟩, Nat.le_succ _, id, le_max_left _ _⟩
  exact h.grow hgrown hbarred
    (goOn_tasks (p := KeyTask.Holds fingerprint (s.destroy n covered since))
      ⟨le_max_right _ _, fun hmem => (hholds.2 hmem).grow hgrown hbarred, hidentity⟩)

theorem RevokeInv.stepTask (h : RevokeInv fingerprint s) {drawn : String}
    (hok : s.spares fingerprint (.step n drawn) = true)
    (hstep : s.stepTask n drawn (s.tasks n) = some s') : RevokeInv fingerprint s' := by
  have hholds := h.tasks n
  cases htask : s.tasks n with
  | idle | revoked | absent | mutating =>
    rw [htask] at hstep
    cases hstep
  | checking request =>
    simp only [htask, KeyWorld.stepTask] at hstep
    split at hstep
    · cases hstep
    · exact Option.some.inj hstep ▸ h.goOn trivial
  | provisioning request =>
    simp only [htask, KeyWorld.stepTask] at hstep
    split_ifs at hstep with hfresh
    exact Option.some.inj hstep ▸ h.provision hfresh
  | revoking =>
    simp only [htask, KeyWorld.stepTask] at hstep
    obtain rfl := Option.some.inj hstep
    refine h.goOn ?_
    split_ifs
    · exact trivial
    · exact trivial
  | deleting =>
    rw [htask] at hstep
    exact Option.some.inj hstep ▸ h.delete
  | incrementing covered since =>
    rw [htask] at hstep hholds
    have hbump := h.bump
    have hfree : fingerprint ∈ covered → FreeFrom fingerprint since (s.setSource s.source.bump) :=
      fun hmem => (hholds.2 hmem).grow grown_bump h.barred.bump
    exact Option.some.inj hstep ▸ hbump.goOn ⟨hholds.1.trans_eq Versioned.covered_bump.symm,
      fun hmem => (hfree hmem).grow grown_goOn hbump.barred.goOn⟩
  | clearing covered since =>
    rw [htask] at hstep hholds
    exact Option.some.inj hstep ▸
      h.goOn ⟨hholds.1, fun hmem => (hholds.2 hmem).grow grown_goOn h.barred.goOn⟩
  | destroying covered since =>
    simp only [KeyWorld.spares, htask, Bool.or_eq_true, bne_iff_ne, List.contains_iff_mem] at hok
    rw [htask] at hstep
    exact Option.some.inj hstep ▸ h.destroy htask fun hidentity => hok.resolve_left (· hidentity)
  | disabling disabled =>
    simp only [htask, KeyWorld.stepTask] at hstep
    split at hstep
    · cases hstep
    · exact Option.some.inj hstep ▸ h.goOn trivial
  | marking policyData =>
    simp only [htask, KeyWorld.stepTask] at hstep
    split at hstep
    · cases hstep
    · next body hbody =>
      obtain rfl := Option.some.inj hstep
      set updated := updatePolicyFields { policyData := some (some policyData) } body with hupdated
      have hkey : keyOf updated.policyData = keyOf body.policyData :=
        keyOf_updatePolicyFields body _
      have hset : Barred fingerprint
          (s.setMutations (s.mutations.commit n updated (.recording updated))) := by
        refine h.barred.setMutations s.stamped (fun m hm => ?_) h.barred.minted id ?_
        · have hold := stamps_of_goOn (w := s.mutations) (.recording updated) rfl hm
          exact ⟨hold, (h.barred.pending m hold).2⟩
        · rintro hmem ⟨_, heq, hfingerprint⟩
          obtain rfl := Option.some.inj heq
          exact (h.barred.deleted hmem).2 ⟨body, hbody, hkey.symm.trans hfingerprint⟩
      have hinv : RevokeInv fingerprint
          (s.setMutations (s.mutations.commit n updated (.recording updated))) :=
        h.grow grown_setMutations hset fun _ => .inl rfl
      exact hinv.goOn trivial

theorem RevokeInv.stepMutation (h : RevokeInv fingerprint s)
    (hok : s.spares fingerprint (.mutation (.step n)) = true)
    (hstep : s.stepMutation n = some s') : RevokeInv fingerprint s' := by
  obtain ⟨w, hw, rfl⟩ := Option.map_eq_some_iff.mp hstep
  have hstepped := stepped_of_next hw
  refine h.grow grown_setMutations (h.barred.setMutations _ (fun m hm => ?_) (fun hmem => ?_)
    (List.mem_append_right _) fun hmem hbears => ?_) fun _ => .inl rfl
  · have hne : m ≠ n := by
      rintro rfl
      rw [hstepped.spent] at hm
      cases hm
    have hold : stamps (s.mutations.tasks m) = some fingerprint := by
      rwa [World.tasks_of_next hw hne] at hm
    refine ⟨hold, fun hmem => ?_⟩
    obtain hmem | hmem := List.mem_append.mp hmem
    · exact hne (h.barred.unique m n hold (Option.mem_toList.mp hmem))
    · exact (h.barred.pending m hold).2 hmem
  · obtain hmem | hmem := List.mem_append.mp hmem
    · exact (h.barred.pending n (Option.mem_toList.mp hmem)).1
    · exact h.barred.minted hmem
  · obtain ⟨hstamped, hnot⟩ := h.barred.deleted hmem
    obtain hbears | hstamps | ⟨policyData, hinserts, hkey⟩ := hstepped.bears _ hbears
    · exact hnot hbears
    · exact (h.barred.pending n hstamps).2 hstamped
    · simp [KeyWorld.spares, hinserts, hkey, hmem] at hok

theorem RevokeInv.callMutation (h : RevokeInv fingerprint s) {call : Call JsonValue}
    (hstep : s.callMutation n call = some s') : RevokeInv fingerprint s' := by
  obtain ⟨hcall, hnext⟩ : stamps (.calling call) = none ∧
      (s.mutations.next (.call n call)).map (fun w => (s.setMutations w).goOn n .mutating) =
        some s' := by
    cases call with
    | create => cases hstep
    | _ =>
      simp only [KeyWorld.callMutation] at hstep
      split at hstep
      · exact ⟨rfl, hstep⟩
      · cases hstep
  obtain ⟨w, hw, rfl⟩ := Option.map_eq_some_iff.mp hnext
  simp only [World.next, Option.ite_none_right_eq_some, Option.some.injEq] at hw
  obtain ⟨-, rfl⟩ := hw
  have hset : Barred fingerprint (s.setMutations (s.mutations.goOn n (.calling call))) := by
    refine h.barred.setMutations s.stamped (fun m hm => ?_) h.barred.minted id ?_
    · have hold := stamps_of_goOn _ hcall hm
      exact ⟨hold, (h.barred.pending m hold).2⟩
    · exact fun hmem => (h.barred.deleted hmem).2
  have hinv : RevokeInv fingerprint (s.setMutations (s.mutations.goOn n (.calling call))) :=
    h.grow grown_setMutations hset fun _ => .inl rfl
  exact hinv.goOn trivial

theorem RevokeInv.begin (h : RevokeInv fingerprint s) {task : KeyTask}
    (htask : task.Holds fingerprint (s.goOn n task)) (hstep : s.begin n task = some s') :
    RevokeInv fingerprint s' := by
  unfold KeyWorld.begin at hstep
  split at hstep
  · exact Option.some.inj hstep ▸ h.goOn htask
  · cases hstep

/-- A step of a decision. -/
theorem RevokeInv.read (h : RevokeInv fingerprint s) {step : ReadStep Unit ℕ}
    (hfloor : ∀ d enforcer floor, step = .start d enforcer floor → floor ≤ s.source.covered)
    (hstep : (s.cached.read step).map (fun cached => { s with cached := cached }) = some s') :
    RevokeInv fingerprint s' := by
  obtain ⟨cached, hcached, rfl⟩ := Option.map_eq_some_iff.mp hstep
  have hsource : cached.source = s.source := Cached.source_of_read hcached
  have hbarred : Barred fingerprint { s with cached := cached } :=
    { cached := h.barred.cached.read hfloor hcached
      row := by
        show cached.source.rowAt cached.source.log.length () = s.mutations.policy
        rw [hsource]
        exact h.barred.row
      minted := h.barred.minted
      pending := h.barred.pending
      unique := h.barred.unique
      deleted := h.barred.deleted
      returned := by
        show s.returned ≤ cached.source.covered
        rw [hsource]
        exact h.barred.returned }
  have hgrown : Grown fingerprint s { s with cached := cached } := by
    refine ⟨?_, ?_, id, le_rfl⟩
    · show s.source.Grows cached.source
      rw [hsource]
      exact .refl _
    · show cached.source.log.length ≤ _
      rw [hsource]
      exact Nat.le_succ _
  exact h.grow hgrown hbarred fun _ => .inl rfl

/-- The steps of a decision after its first. -/
theorem read_of_next {step : ReadStep Unit ℕ} (hstep : s.next (.read step) = some s') :
    (∀ d enforcer floor, step ≠ .start d enforcer floor) ∧
      (s.cached.read step).map (fun cached => { s with cached := cached }) = some s' := by
  cases step with
  | start => cases hstep
  | _ => exact ⟨nofun, hstep⟩

theorem RevokeInv.step (h : RevokeInv fingerprint s) {a : KeyLabel}
    (hok : s.spares fingerprint a = true) (hstep : s.next a = some s') :
    RevokeInv fingerprint s' := by
  cases a with
  | mint n request =>
    refine h.begin ?_ hstep
    exact trivial
  | revoke n =>
    refine h.begin ?_ hstep
    exact trivial
  | setUserDisabled n disabled =>
    refine h.begin ?_ hstep
    exact trivial
  | step n drawn => exact h.stepTask hok hstep
  | mutation a =>
    cases a with
    | call n call => exact h.callMutation hstep
    | step n => exact h.stepMutation hok hstep
  | bump => exact Option.some.inj hstep ▸ h.bump
  | decide d enforcer =>
    refine h.read (fun d' enforcer' floor heq => ?_) hstep
    injection heq with _ _ hfloor
    exact hfloor ▸ h.barred.returned
  | read step =>
    obtain ⟨hnot, hread⟩ := read_of_next hstep
    exact h.read (fun d enforcer floor heq => absurd heq (hnot d enforcer floor)) hread

theorem RevokeInv.first (h : s.First) : RevokeInv fingerprint s where
  barred :=
    { cached := .of_unread h.bumpAt h.fetches h.slots h.readers
      row := by
        rw [h.log]
        show (([] : List (List (Unit × Option (PolicyBody JsonValue)))).take 0).foldl
          Versioned.write s.source.base () = _
        exact h.base
      minted := fun hmem => h.minted _ (.inl hmem)
      pending := by
        intro n hn
        rw [h.mutations] at hn
        cases hn
      unique := by
        intro n m hn
        rw [h.mutations] at hn
        cases hn
      deleted := by
        rw [h.deleted]
        nofun
      returned := h.returned.trans_le (Nat.zero_le _) }
  tasks n := by
    rw [h.tasks]
    trivial

/-! ## The decisions -/

/-- What is left of the revokes that have returned and of the decisions that have begun; one that
begins sees the deletes of the revokes that have returned. -/
structure Kept (s s' : KeyWorld) : Prop where
  returned : s.returned ≤ s'.returned
  revoked : ∀ n covered since destroyed, s.tasks n = .revoked covered since destroyed →
    s'.tasks n = .revoked covered since destroyed
  floors : ∀ d reader', s'.cached.readers d = some reader' →
    (∃ reader, s.cached.readers d = some reader ∧ reader'.floor = reader.floor) ∨
      s.returned ≤ reader'.floor

theorem Kept.refl (s : KeyWorld) : Kept s s :=
  ⟨le_rfl, fun _ _ _ _ hn => hn, fun _ reader hreader => .inl ⟨reader, hreader, rfl⟩⟩

theorem Kept.trans {s'' : KeyWorld} (h : Kept s s') (h' : Kept s' s'') : Kept s s'' where
  returned := h.returned.trans h'.returned
  revoked n covered since destroyed hn := h'.revoked _ _ _ _ (h.revoked _ _ _ _ hn)
  floors d reader'' hreader'' := by
    obtain ⟨reader', hreader', hfloor'⟩ | hfloor' := h'.floors d reader'' hreader''
    · obtain ⟨reader, hreader, hfloor⟩ | hfloor := h.floors d reader' hreader'
      · exact .inl ⟨reader, hreader, hfloor'.trans hfloor⟩
      · exact .inr (hfloor' ▸ hfloor)
    · exact .inr (h.returned.trans hfloor')

/-- A step that starts no decision, of a call that has not returned. -/
theorem Kept.of_call {task : KeyTask} (hreturned : s.returned ≤ s'.returned)
    (htasks : s'.tasks = Function.update s.tasks n task)
    (hreaders : s'.cached.readers = s.cached.readers)
    (hon : ∀ covered since destroyed, s.tasks n ≠ .revoked covered since destroyed) :
    Kept s s' where
  returned := hreturned
  revoked m covered since destroyed hm := by
    have hne : m ≠ n := by
      rintro rfl
      exact hon covered since destroyed hm
    rw [htasks, Function.update_of_ne hne, hm]
  floors d reader' hreader' := .inl ⟨reader', hreaders ▸ hreader', rfl⟩

theorem Kept.of_same (hreturned : s'.returned = s.returned) (htasks : s'.tasks = s.tasks)
    (hreaders : s'.cached.readers = s.cached.readers) : Kept s s' where
  returned := hreturned.ge
  revoked _ _ _ _ hn := htasks ▸ hn
  floors _ reader' hreader' := .inl ⟨reader', hreaders ▸ hreader', rfl⟩

theorem Kept.begin {task : KeyTask} (h : s.begin n task = some s') : Kept s s' := by
  unfold KeyWorld.begin at h
  split at h
  · next hidle =>
    exact Option.some.inj h ▸ .of_call le_rfl rfl rfl fun covered since destroyed heq => by
      rw [hidle] at heq
      cases heq
  · cases h

theorem Kept.stepTask {drawn : String} (h : s.stepTask n drawn (s.tasks n) = some s') :
    Kept s s' := by
  have hon : ∀ covered since destroyed, s.tasks n ≠ .revoked covered since destroyed := by
    intro covered since destroyed heq
    rw [heq] at h
    cases h
  cases htask : s.tasks n with
  | idle | revoked | absent | mutating =>
    rw [htask] at h
    cases h
  | checking | disabling | marking =>
    simp only [htask, KeyWorld.stepTask] at h
    split at h
    · cases h
    · exact Option.some.inj h ▸ .of_call le_rfl rfl rfl hon
  | provisioning =>
    simp only [htask, KeyWorld.stepTask] at h
    split_ifs at h
    exact Option.some.inj h ▸ .of_call le_rfl rfl rfl hon
  | revoking | deleting | incrementing | clearing =>
    rw [htask] at h
    exact Option.some.inj h ▸ .of_call le_rfl rfl rfl hon
  | destroying =>
    rw [htask] at h
    exact Option.some.inj h ▸ .of_call (le_max_left _ _) rfl rfl hon

theorem Kept.callMutation {call : Call JsonValue} (h : s.callMutation n call = some s') :
    Kept s s' := by
  cases call with
  | create => cases h
  | _ =>
    simp only [KeyWorld.callMutation] at h
    split at h
    · next hidle =>
      obtain ⟨w, -, rfl⟩ := Option.map_eq_some_iff.mp h
      refine .of_call le_rfl rfl rfl fun covered since destroyed heq => ?_
      rw [hidle] at heq
      cases heq
    · cases h

theorem Kept.read {step : ReadStep Unit ℕ}
    (hfloor : ∀ d enforcer floor, step = .start d enforcer floor → floor = s.returned)
    (h : (s.cached.read step).map (fun cached => { s with cached := cached }) = some s') :
    Kept s s' := by
  obtain ⟨cached, hcached, rfl⟩ := Option.map_eq_some_iff.mp h
  refine ⟨le_rfl, fun n covered since destroyed hn => hn, fun d reader' hreader' => ?_⟩
  obtain hold | ⟨enforcer, hstart⟩ := Cached.floor_of_read hcached hreader'
  · exact .inl hold
  · exact .inr (hfloor d enforcer _ hstart).ge

theorem kept_of_next {a : KeyLabel} (h : s.next a = some s') : Kept s s' := by
  cases a with
  | mint n request => exact .begin h
  | revoke n => exact .begin h
  | setUserDisabled n disabled => exact .begin h
  | step n drawn => exact .stepTask h
  | mutation a =>
    cases a with
    | call n call => exact .callMutation h
    | step n =>
      obtain ⟨w, -, rfl⟩ := Option.map_eq_some_iff.mp h
      exact .of_same rfl rfl rfl
  | bump => exact Option.some.inj h ▸ .of_same rfl rfl rfl
  | decide d enforcer =>
    refine .read (fun d' enforcer' floor heq => ?_) h
    injection heq with _ _ hfloor
    exact hfloor.symm
  | read step =>
    obtain ⟨hnot, hread⟩ := read_of_next h
    exact .read (fun d enforcer floor heq => absurd heq (hnot d enforcer floor)) hread

theorem kept_of_run (h : keyMutations.Run s s') : Kept s s' :=
  h.relates (p := fun _ => True) Kept.refl (fun _ _ _ => Kept.trans) (fun _ _ _ _ _ => trivial)
    (fun _ _ _ _ hstep => kept_of_next hstep) trivial

theorem RevokeInv.of_reachable
    (h : (keyMutations.when fun s a => s.spares fingerprint a = true).Reachable s) :
    RevokeInv fingerprint s := by
  refine h.invariant (p := fun s : KeyWorld => RevokeInv fingerprint s) ?_ ?_
  · exact fun s hfirst => .first hfirst
  · exact fun s a s' hs hstep => hs.step hstep.1 hstep.2

end Barred

/-- A revoked mint never fires in the runs in which no assignment of a role inserts what it has read
of the mint before its revoke, and no revoke destroys the identity record of the mint whose row it
has come too early for. -/
theorem revoked_never_fires (fingerprint : String) :
    NeverFires (keyMutations.when fun s a => s.spares fingerprint a = true) fingerprint := by
  intro s s' n d reader h hrevoked hrun hbefore hreader
  have hs := RevokeInv.of_reachable h
  have hs' := RevokeInv.of_reachable (h.run hrun)
  have hkept := kept_of_run hrun.of_when
  have hholds := hs.tasks n
  cases htask : s.tasks n with
  | revoked covered since destroyed =>
    rw [htask] at hrevoked hholds
    have hcovered : fingerprint ∈ covered := hrevoked.elim id hholds.2.2
    have hholds' := hs'.tasks n
    rw [hkept.revoked n covered since destroyed htask] at hholds'
    intro key entry hentry
    obtain ⟨hof, hle⟩ := (hs'.barred.cached.readers d reader hreader).used entry hentry
    have hfloor : s.returned ≤ reader.floor := by
      obtain ⟨reader', hreader', -⟩ | hfloor := hkept.floors d reader hreader
      · rw [hbefore] at hreader'
        cases hreader'
      · exact hfloor
    have hsince : since ≤ entry.2.asOf := calc
      since ≤ s.returned := hholds.1
      _ ≤ reader.floor := hfloor
      _ ≤ entry.2.asOf := hle
    have hnot := (hholds'.2.1 hcovered).free entry.2.asOf hsince hof.1
    exact refuses_of_not_bears (hof.2 ▸ hnot)
  | _ =>
    rw [htask] at hrevoked
    exact hrevoked.elim

/-! ## A mint, its revoke and the next mint -/

/-- Nothing is known of the user. -/
def noKey : KeyWorld where
  mutations := { policy := none, history := none, tasks := fun _ => .idle, unrecorded := [] }
  identity := none
  tasks _ := .idle
  minted := []
  stamped := []
  deleted := []
  cached :=
    { source := ⟨fun _ => none, [], 0, fun _ => 0⟩, fetches := fun _ => none
      slots := fun _ _ _ => none, readers := fun _ => none }
  returned := 0

theorem noKey_first : noKey.First where
  tasks _ := rfl
  mutations _ := rfl
  stamped := by
    rintro fingerprint ⟨body, hbody, -⟩
    cases hbody
  minted := by
    rintro fingerprint (hmem | hidentity)
    · cases hmem
    · cases hidentity
  deleted := rfl
  base := rfl
  log := rfl
  version := rfl
  bumpAt := rfl
  fetches := rfl
  slots := rfl
  readers := rfl
  returned := rfl

/-- A mint that draws the fingerprint. -/
def minting (n : ℕ) (fingerprint : String) : List KeyLabel :=
  [.mint n ⟨["*"], none, none, none, none, none⟩, .step n fingerprint, .step n fingerprint,
    .mutation (.step n)]

def revoking (n : ℕ) : List KeyLabel := .revoke n :: List.replicate 5 (.step n "")

/-- A decision that reads the row. -/
def deciding : List KeyLabel :=
  [.decide 0 0, .read (.request 0 () 0), .read (.fetch 0), .read (.deliver 0)]

/-- A revoke of the mint has returned, and no decision has begun. -/
def revokedMint (n : ℕ) (fingerprint : String) (s : KeyWorld) : Bool :=
  (s.cached.readers 0).isNone &&
    match s.tasks n with
    | .revoked covered _ destroyed => covered.contains fingerprint || destroyed == some fingerprint
    | _ => false

/-- The first decision has read a row that is of the mint. -/
def readsRowOf (fingerprint : String) (s : KeyWorld) : Bool :=
  (s.cached.readers 0).any fun reader => reader.used.any fun entry => entry.2.value.any fun body =>
    keyOf body.policyData == some (.str fingerprint)

theorem exists_decided (ok : KeyWorld → KeyLabel → Bool) (n : ℕ) (fingerprint : String)
    (before after : List KeyLabel) (p : KeyWorld → Bool)
    (h : ((before.foldlM (System.guarded KeyWorld.next ok) noKey).any fun s =>
      revokedMint n fingerprint s &&
        (after.foldlM (System.guarded KeyWorld.next ok) s).any p) = true) :
    ∃ s s' : KeyWorld, (keyMutations.when fun s a => ok s a = true).Reachable s ∧
      revokedMint n fingerprint s = true ∧
      (keyMutations.when fun s a => ok s a = true).Run s s' ∧ p s' = true := by
  have hstep : ∀ (s : KeyWorld) (a : KeyLabel) (s' : KeyWorld),
      System.guarded KeyWorld.next ok s a = some s' →
        (keyMutations.when fun s a => ok s a = true).step s a s' :=
    fun s a s' h => System.step_of_guarded h
  obtain ⟨s, hs, hboth⟩ := System.Reachable.of_foldlM hstep noKey_first h
  obtain ⟨hrevoked, hafter⟩ := Bool.and_eq_true_iff.mp hboth
  obtain ⟨s', hs', hp⟩ := (Option.any_eq_true _ _).mp hafter
  exact ⟨s, s', hs, hrevoked, .of_foldlM hstep hs', hp⟩

theorem revokes_of_revokedMint {s : KeyWorld} {n : ℕ} {fingerprint : String}
    (h : revokedMint n fingerprint s = true) :
    s.cached.readers 0 = none ∧ (s.tasks n).Revokes fingerprint := by
  obtain ⟨hnone, htask⟩ := Bool.and_eq_true_iff.mp h
  refine ⟨Option.isNone_iff_eq_none.mp hnone, ?_⟩
  cases hrevoked : s.tasks n with
  | revoked covered since destroyed =>
    show fingerprint ∈ covered ∨ destroyed = some fingerprint
    simpa only [hrevoked, Bool.or_eq_true, List.contains_iff_mem, beq_iff_eq] using htask
  | _ =>
    rw [hrevoked] at htask
    cases htask

/-- After the next mint, a decision on its row refuses the records of the mint before. -/
theorem revoked_never_fires_reminted : ∃ (s : KeyWorld)
    (reader : Reader Unit (PolicyBody JsonValue) ℕ), s.cached.readers 0 = some reader ∧
      readsRowOf "b" s = true ∧
      ∀ key, ∀ entry ∈ reader.used, Refuses key "a" entry.2.value := by
  obtain ⟨s, s', hs, hrevoked, hrun, hreads⟩ :=
    exists_decided (fun s a => s.spares "a" a) 1 "a" (minting 0 "a" ++ revoking 1)
      (minting 2 "b" ++ deciding) (readsRowOf "b") (by decide +kernel)
  obtain ⟨hnone, hrevokes⟩ := revokes_of_revokedMint hrevoked
  obtain ⟨reader, hreader, -⟩ := (Option.any_eq_true _ _).mp hreads
  exact ⟨s', reader, hreader, hreads,
    revoked_never_fires "a" s s' 1 0 reader hs hrevokes hrun hnone hreader⟩

/-! ## Mints that outlive their revoke -/

/-- The first decision has read a live row of the mint. -/
def readsLiveRow (fingerprint : String) (s : KeyWorld) : Bool :=
  (s.cached.readers 0).any fun reader => reader.used.any fun entry => entry.2.value.any fun body =>
    keyOf body.policyData == some (.str fingerprint) && !body.scopes.isEmpty &&
      (body.policyData.get? "disabled").isNone && (ownerOf body.policyData).isNone

/-- A mint whose live row a decision reads after the mint's revoke. -/
theorem not_neverFires (before after : List KeyLabel) (n : ℕ) (fingerprint : String)
    (h : ((before.foldlM (System.guarded KeyWorld.next fun _ _ => true) noKey).any fun s =>
      revokedMint n fingerprint s &&
        (after.foldlM (System.guarded KeyWorld.next fun _ _ => true) s).any
          (readsLiveRow fingerprint)) = true) : ¬NeverFires keyMutations fingerprint := by
  intro hnever
  obtain ⟨s, s', hs, hrevoked, hrun, hreads⟩ := exists_decided (fun _ _ => true) n fingerprint
    before after (readsLiveRow fingerprint) h
  obtain ⟨hnone, hrevokes⟩ := revokes_of_revokedMint hrevoked
  obtain ⟨reader, hreader, hreads⟩ := (Option.any_eq_true _ _).mp hreads
  obtain ⟨entry, hentry, hreads⟩ := List.any_eq_true.mp hreads
  obtain ⟨body, hbody, hlive⟩ := (Option.any_eq_true _ _).mp hreads
  simp only [Bool.and_eq_true, beq_iff_eq, Bool.not_eq_true', List.isEmpty_eq_false_iff,
    Option.isNone_iff_eq_none] at hlive
  obtain ⟨⟨⟨hbears, hscopes⟩, henabled⟩, hunowned⟩ := hlive
  have hrefuses := hnever s s' n 0 reader hs.of_when hrevokes hrun.of_when hnone hreader "key"
    entry hentry
  rw [hbody] at hrefuses
  exact not_refuses_of_bears ⟨hscopes, henabled, hunowned⟩ hbears hrefuses

/-- The admin's role. -/
def adminRole : RoleDefinition JsonValue := ⟨.str "admin", ["*"], none, true⟩

/-- A role that is assigned to the user of the key is read before the revoke, and inserted after
it. -/
theorem assignment_revives_mint : ¬NeverFires keyMutations "a" :=
  not_neverFires
    (minting 0 "a" ++ [.mutation (.call 1 (.applyRole adminRole)), .mutation (.step 1)] ++
      revoking 2)
    (List.replicate 2 (.mutation (.step 1)) ++ deciding) 2 "a" (by decide +kernel)

/-- A revoke comes between a mint's identity record and its row. -/
theorem revoke_overtakes_mint : ¬NeverFires keyMutations "a" :=
  not_neverFires ((minting 0 "a").take 3 ++ revoking 1) ((minting 0 "a").drop 3 ++ deciding) 1 "a"
    (by decide +kernel)

end TaiSkeleton.Authz
