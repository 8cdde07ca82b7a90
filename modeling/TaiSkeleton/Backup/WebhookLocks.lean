import TaiSkeleton.Backup.WebhookRounds

/-!
# The locks of a webhooks restore

The bindings are restored first, and each topic whose binding is refused is noted. From then on
nothing is written on these topics, wherever the import ends.
-/

namespace TaiSkeleton.Backup.Webhooks

open Lib Hooks

variable {η β : Type} {M : Models η β} {P : Parsing} {backend : Backend}
  {assertUsable : Text → Text → KeyVerdict} {clock : ℤ} {start s s' : Stores η β}
  {r r' : Restore η β} {e : Envelope} {entry : Entry} {outcome : Outcome}

/-! ## Nothing new on a topic -/

/-- No hook has been written on the topic since the start. -/
def HooksKept (start : Stores η β) (topic : Text) (s : Stores η β) : Prop :=
  ∀ name params, s.hooks.lookup (topic, name) = some params →
    start.hooks.lookup (topic, name) = some params

/-- No trigger link has been written on the topic since the start. -/
def LinksKept (start : Stores η β) (topic : Text) (s : Stores η β) : Prop :=
  ∀ hash kept, s.links.records hash = some kept → kept.value.topic = topic →
    start.links.records hash = some kept

theorem HooksKept.register {topic : Text} {params : η} (hkept : HooksKept start topic s)
    (hne : M.topic params ≠ topic) (h : register M backend s params = some s') :
    HooksKept start topic s' := by
  unfold Webhooks.register at h
  dsimp only at h
  split_ifs at h
  obtain rfl := Option.some.inj h
  intro name params' hlookup
  rw [lookup_dictPut, if_neg (by simp [hne.symm])] at hlookup
  split at hlookup
  · exact hkept name params' hlookup
  · split_ifs at hlookup
    · exact hkept name params' hlookup
    · rw [lookup_dictPop] at hlookup
      split_ifs at hlookup
      exact hkept name params' hlookup

theorem links_register {params : η} (h : register M backend s params = some s') :
    s'.links = s.links ∧ s'.verifiers = s.verifiers := by
  unfold register at h
  dsimp only at h
  split_ifs at h
  obtain rfl := Option.some.inj h
  exact ⟨rfl, rfl⟩

/-- A tombstone only takes records away. -/
theorem LinksKept.tombstoneScript {topic : Text} (hkept : LinksKept start topic s) (t : Text) :
    LinksKept start topic { s with links := (s.links.tombstoneScript t).2 } := by
  intro hash kept hrecord htopic
  by_cases heq : hash = t
  · subst heq
    have hnone := (LinkStore.buried_tombstoneScript s.links hash).2
    rw [hnone] at hrecord
    cases hrecord
  · have hold : s.links.records hash = some kept :=
      (LinkStore.records_tombstoneScript heq).symm.trans hrecord
    exact hkept hash kept hold htopic

/-! ## The rounds after the bindings -/

/-- What the rounds after the bindings keep: the bindings, the failed topics, and the absence of new
hooks and links on these. A valid link has a topic that is not empty. -/
structure Locked (start : Stores η β) (r₁ r : Restore η β) : Prop where
  verifiers : r.stores.verifiers = r₁.stores.verifiers
  unlocked : r.unlockedTopics = r₁.unlockedTopics
  hooks : ∀ topic ∈ r.unlockedTopics, HooksKept start topic r.stores
  links : ∀ topic, topic = [] ∨ topic ∈ r.unlockedTopics → LinksKept start topic r.stores

theorem topic_ne_of_valid {record : TriggerRecord} (h : record.valid = true) :
    record.topic ≠ [] := by
  rintro hnil
  simp [TriggerRecord.valid, hnil] at h

/-- An entry that the bindings gate. -/
def Entry.isGated : Entry → Bool
  | .verifier _ _ => false
  | _ => true

theorem isGated_of_mem (h : entry ∈ e.gated) : entry.isGated = true := by
  unfold Envelope.gated at h
  rw [List.mem_append, List.mem_append, List.mem_map, List.mem_map, List.mem_map] at h
  rcases h with (⟨_, -, rfl⟩ | ⟨_, -, rfl⟩) | ⟨_, -, rfl⟩
  · rfl
  · rfl
  · rfl

theorem Locked.settled {r₁ : Restore η β} (hgated : entry.isGated = true) (hr : Locked start r₁ r)
    (h : entryRound M P backend assertUsable clock s r entry = .settled outcome r') :
    Locked start r₁ r' := by
  cases entry with
  | verifier topic binding => cases hgated
  | hook item =>
    obtain ⟨-, -, rfl⟩ | ⟨params, stores, -, hlocked, -, hstores, -, rfl⟩ := hookRound_settled h
    · exact hr
    · obtain ⟨hlinks, hverifiers⟩ := links_register hstores
      refine ⟨hverifiers.trans hr.verifiers, hr.unlocked, fun topic htopic => ?_,
        fun topic htopic => ?_⟩
      · refine (hr.hooks topic htopic).register ?_ hstores
        rintro rfl
        exact hlocked htopic
      · unfold LinksKept
        rw [hlinks]
        exact hr.links topic htopic
  | tombstone hash =>
    obtain ⟨-, -, rfl, -⟩ | ⟨t, -, -, -, -, -, rfl⟩ := tombstoneRound_settled h
    · exact hr
    · exact ⟨hr.verifiers, hr.unlocked, hr.hooks,
        fun topic htopic => (hr.links topic htopic).tombstoneScript t⟩
  | link item =>
    obtain ⟨-, -, rfl, -⟩ | ⟨name, t, record, link, -, -, -, -, hcheck, hlocked, -, -, rfl⟩ :=
      linkRound_settled h
    · exact hr
    · refine ⟨hr.verifiers, hr.unlocked, hr.hooks, fun topic htopic hash kept hrecord hkept => ?_⟩
      rcases LinkStore.records_restoreScript hrecord with hold | ⟨-, hvalue, -⟩
      · exact hr.links topic htopic hash kept hold hkept
      · rw [hvalue] at hkept
        subst hkept
        rcases htopic with hnil | hunlocked
        · obtain ⟨-, -, -, hvalid⟩ := checkRestore_spec hcheck
          exact absurd hnil (topic_ne_of_valid hvalid)
        · exact absurd hunlocked hlocked

/-- An exception leaves the stores as they were, or without a record more. -/
theorem Locked.raised {r₁ : Restore η β} {stores : Stores η β} (hgated : entry.isGated = true)
    (hr : Locked start r₁ r)
    (h : entryRound M P backend assertUsable clock s r entry = .raised stores) :
    Locked start r₁ ⟨stores, r.unlockedTopics⟩ := by
  cases entry with
  | verifier topic binding => cases hgated
  | hook item =>
    obtain ⟨rfl, -⟩ := hookRound_raised h
    exact hr
  | tombstone hash =>
    obtain ⟨t, -, -, -, -, rfl⟩ := tombstoneRound_raised h
    exact ⟨hr.verifiers, hr.unlocked, hr.hooks,
      fun topic htopic => (hr.links topic htopic).tombstoneScript t⟩
  | link item =>
    obtain ⟨rfl, -⟩ := linkRound_raised h
    exact hr

/-! ## The loop over the bindings -/

/-- The loop over the bindings notes each topic whose binding it does not store. -/
theorem verifiers_restoreEach {existing : Text → Bool} {p p' : Progress η β}
    {l : List (Text × Value)} (hnodup : (l.map Prod.fst).Nodup)
    (h : restoreEach (verifierRound M backend existing) p l = .ok p') :
    (∀ topic ∈ p.restore.unlockedTopics, topic ∈ p'.restore.unlockedTopics) ∧
    (∀ topic ∉ l.map Prod.fst,
      p'.restore.stores.verifiers topic = p.restore.stores.verifiers topic) ∧
    ∀ topic binding, (topic, binding) ∈ l → topic = [] ∨ topic ∈ p'.restore.unlockedTopics ∨
      ∃ model, M.bindingOf binding = some model ∧
        p'.restore.stores.verifiers topic = some model := by
  induction l generalizing p with
  | nil =>
    obtain rfl := Except.ok.inj h
    exact ⟨fun _ => id, fun _ _ => rfl, fun _ _ hmem => by cases hmem⟩
  | cons entry l ih =>
    obtain ⟨topic₀, binding₀⟩ := entry
    rw [List.map_cons, List.nodup_cons] at hnodup
    rw [restoreEach_cons] at h
    cases hround : verifierRound M backend existing p.restore (topic₀, binding₀) with
    | raised stores =>
      rw [hround] at h
      cases h
    | settled outcome r' =>
      rw [hround] at h
      obtain ⟨hmono, hframe, hall⟩ := ih hnodup.2 h
      have hfirst : (∀ topic ∈ p.restore.unlockedTopics, topic ∈ r'.unlockedTopics) ∧
          (∀ topic ≠ topic₀, r'.stores.verifiers topic = p.restore.stores.verifiers topic) ∧
          (topic₀ = [] ∨ topic₀ ∈ r'.unlockedTopics ∨ ∃ model,
            M.bindingOf binding₀ = some model ∧ r'.stores.verifiers topic₀ = some model) := by
        obtain ⟨hnil, -, rfl⟩ | ⟨-, -, -, rfl⟩ | ⟨model, -, hmodel, -, -, rfl⟩ :=
          verifierRound_settled hround
        · exact ⟨fun _ => id, fun _ _ => rfl, .inl hnil⟩
        · exact ⟨fun _ => List.mem_cons_of_mem _, fun _ _ => rfl,
            .inr (.inl List.mem_cons_self)⟩
        · exact ⟨fun _ => id, fun topic hne => Function.update_of_ne hne _ _,
            .inr (.inr ⟨model, hmodel, Function.update_self ..⟩)⟩
      obtain ⟨hmono₀, hframe₀, hall₀⟩ := hfirst
      refine ⟨fun topic hmem => hmono topic (hmono₀ topic hmem), fun topic hnot => ?_,
        fun topic binding hmem => ?_⟩
      · rw [List.map_cons, List.mem_cons, not_or] at hnot
        exact (hframe topic hnot.2).trans (hframe₀ topic hnot.1)
      · rcases List.mem_cons.mp hmem with heq | hmem
        · obtain ⟨rfl, rfl⟩ := Prod.mk.inj heq
          obtain hnil | hunlocked | ⟨model, hmodel, hstored⟩ := hall₀
          · exact .inl hnil
          · exact .inr (.inl (hmono _ hunlocked))
          · exact .inr (.inr ⟨model, hmodel, (hframe _ hnodup.1).trans hstored⟩)
        · exact hall topic binding hmem

/-! ## The import -/

/-- Of each topic with a binding in the envelope: the binding is stored, or nothing has been written
on the topic. The empty topic, at which there is no door, has no new links. -/
def LockSafe (M : Models η β) (start : Stores η β) (e : Envelope) (s : Stores η β) : Prop :=
  ∀ topic binding, (topic, binding) ∈ e.topicVerifiers →
    (∃ model, M.bindingOf binding = some model ∧ s.verifiers topic = some model) ∨
      (topic ≠ [] → HooksKept start topic s) ∧ LinksKept start topic s

/-- Stores with the hooks and links of the start are safe. -/
theorem LockSafe.of_frame (hhooks : s.hooks = start.hooks) (hlinks : s.links = start.links) :
    LockSafe M start e s := by
  intro topic binding _
  refine .inr ⟨fun _ name params hlookup => ?_, fun hash kept hrecord _ => ?_⟩
  · rwa [hhooks] at hlookup
  · rwa [hlinks] at hrecord

theorem Locked.lockSafe {r₁ : Restore η β} (h : Locked start r₁ r)
    (hall : ∀ topic binding, (topic, binding) ∈ e.topicVerifiers →
      topic = [] ∨ topic ∈ r₁.unlockedTopics ∨ ∃ model,
        M.bindingOf binding = some model ∧ r₁.stores.verifiers topic = some model) :
    LockSafe M start e r.stores := by
  intro topic binding hmem
  obtain hnil | hunlocked | ⟨model, hmodel, hstored⟩ := hall topic binding hmem
  · exact .inr ⟨fun hne => absurd hnil hne, h.links topic (.inl hnil)⟩
  · rw [← h.unlocked] at hunlocked
    exact .inr ⟨fun _ => h.hooks topic hunlocked, h.links topic (.inr hunlocked)⟩
  · refine .inl ⟨model, hmodel, ?_⟩
    rw [h.verifiers]
    exact hstored

theorem verifierRound_frame_start {existing : Text → Bool} {entry : Text × Value}
    (h : verifierRound M backend existing r entry = .settled outcome r')
    (hr : r.stores.hooks = start.hooks ∧ r.stores.links = start.links) :
    r'.stores.hooks = start.hooks ∧ r'.stores.links = start.links := by
  obtain ⟨hhooks, -, hlinks⟩ := verifierRound_frame h
  exact ⟨hhooks.trans hr.1, hlinks.trans hr.2⟩

/-- The stores are safe wherever the import ends. -/
theorem lockSafe_ended (start : Stores η β) (e : Envelope) : LockSafe M start e
    (ended (restoreEnvelope M P backend assertUsable clock start e)) := by
  rw [restoreEnvelope_eq]
  unfold Envelope.entries
  rw [restoreEach_append, restoreEach_map]
  simp only [entryRound]
  cases hverifiers : restoreEach
      (verifierRound M backend fun topic => (start.verifiers topic).isSome)
      ⟨⟨start, []⟩, .empty⟩ e.topicVerifiers with
  | error stores =>
    have hended := ended_restoreEach (p := ⟨⟨start, []⟩, .empty⟩) (l := e.topicVerifiers)
      (q := fun r => r.stores.hooks = start.hooks ∧ r.stores.links = start.links)
      (t := fun s => s.hooks = start.hooks ∧ s.links = start.links) (fun _ => id)
      (fun r entry _ outcome r' hr hround => verifierRound_frame_start hround hr)
      (fun r entry _ stores hr (hround : verifierRound M backend
          (fun topic => (start.verifiers topic).isSome) r entry = _) => by
        rwa [verifierRound_raised hround]) ⟨rfl, rfl⟩
    rw [hverifiers] at hended
    obtain ⟨hhooks, hlinks⟩ := hended
    exact LockSafe.of_frame (s := stores) hhooks hlinks
  | ok p₁ =>
    obtain ⟨-, -, hall⟩ := verifiers_restoreEach e.topics_nodup hverifiers
    obtain ⟨hhooks, hlinks⟩ := keeps_restoreEach
      (fun r entry _ outcome r' hr hround => verifierRound_frame_start hround hr) hverifiers
      ⟨rfl, rfl⟩
    have hlocked : Locked start p₁.restore p₁.restore := by
      refine ⟨rfl, rfl, fun topic _ name params hlookup => ?_,
        fun topic _ hash kept hrecord _ => ?_⟩
      · rwa [hhooks] at hlookup
      · rwa [hlinks] at hrecord
    rw [ok_bind]
    refine ended_restoreEach (q := Locked start p₁.restore) (fun r hr => hr.lockSafe hall) ?_ ?_
      hlocked
    · exact fun r entry hmem outcome r' hr hround => hr.settled (isGated_of_mem hmem) hround
    · exact fun r entry hmem stores hr hround =>
        (hr.raised (isGated_of_mem hmem) hround).lockSafe hall

end TaiSkeleton.Backup.Webhooks
