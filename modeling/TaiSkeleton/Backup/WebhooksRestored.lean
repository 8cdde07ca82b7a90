import TaiSkeleton.Backup.WebhookLocks

/-!
# A webhooks restore is total per record

An entry that is skipped leaves the stores as they are, so what an import has written is what its
other entries write alone. A tombstone is there before the first of the links.
-/

namespace TaiSkeleton.Backup.Webhooks

open Lib Hooks

variable {η β : Type} {M : Models η β} {P : Parsing} {backend : Backend}
  {assertUsable : Text → Text → KeyVerdict} {clock : ℤ} {start s s' : Stores η β}
  {r r' : Restore η β} {e : Envelope} {entry : Entry} {outcome : Outcome}
  {trace : List (Entry × Outcome)}

/-! ## What a skipped entry leaves -/

/-- The import takes the entry by itself: it has a valid shape, and the jq of a hook compiles. -/
def Entry.WellFormed (M : Models η β) (P : Parsing) (clock : ℤ) : Entry → Prop
  | .verifier topic binding => topic ≠ [] ∧ ∃ model, M.bindingOf binding = some model
  | .hook item => ∃ params, M.hookOf item = some params ∧ M.jqFieldsCompile params = true
  | .tombstone hash => ∃ t, hash = .str t ∧ hashValid t = true
  | .link item => LinkWellFormed P clock item

theorem jqFieldsCompile_of_register {params : η} (h : register M backend s params = some s') :
    M.jqFieldsCompile params = true := by
  unfold register at h
  dsimp only at h
  split_ifs at h with hok
  exact (Bool.and_eq_true_iff.mp hok).1

/-- A malformed entry is skipped with an error. -/
theorem skipped_of_malformed
    (h : entryRound M P backend assertUsable clock start r entry = .settled outcome r')
    (hmalformed : ¬entry.WellFormed M P clock) : ∃ error, outcome = .skipped (some error) := by
  cases entry with
  | verifier topic binding =>
    rw [entryRound] at h
    obtain ⟨-, rfl, -⟩ | ⟨-, -, rfl, -⟩ | ⟨model, htopic, hmodel, -⟩ := verifierRound_settled h
    · exact ⟨_, rfl⟩
    · exact ⟨_, rfl⟩
    · exact absurd ⟨htopic, model, hmodel⟩ hmalformed
  | hook item =>
    obtain ⟨error, rfl, -⟩ | ⟨params, stores, hparams, -, -, hstores, -⟩ := hookRound_settled h
    · exact ⟨error, rfl⟩
    · exact absurd ⟨params, hparams, jqFieldsCompile_of_register hstores⟩ hmalformed
  | tombstone hash =>
    obtain ⟨error, rfl, -⟩ | ⟨t, -, rfl, hvalid, -⟩ := tombstoneRound_settled h
    · exact ⟨error, rfl⟩
    · exact absurd ⟨t, rfl, hvalid⟩ hmalformed
  | link item =>
    obtain ⟨error, rfl, -, hwell⟩ | ⟨name, hash, record, link, hrest⟩ := linkRound_settled h
    · cases error with
      | none => exact absurd (hwell rfl) hmalformed
      | some error => exact ⟨error, rfl⟩
    · obtain ⟨-, hname, hhash, hrecord, hcheck, -⟩ := hrest
      exact absurd ⟨name, hash, record, some link, hname, hhash, hrecord, hcheck⟩ hmalformed

theorem isBuried_replaced (existed : Bool) : (replaced existed).isBuried = false := by
  cases existed <;> rfl

theorem isSkipped_replaced (existed : Bool) : (replaced existed).isSkipped = false := by
  cases existed <;> rfl

/-- A skipped entry leaves the stores as they are. -/
theorem stores_of_skipped
    (h : entryRound M P backend assertUsable clock start r entry = .settled outcome r')
    (hskipped : outcome.isSkipped = true) : r'.stores = r.stores := by
  cases entry with
  | verifier topic binding =>
    rw [entryRound] at h
    obtain ⟨-, -, rfl⟩ | ⟨-, -, -, rfl⟩ | ⟨model, -, -, -, rfl, -⟩ := verifierRound_settled h
    · rfl
    · rfl
    · rw [isSkipped_replaced] at hskipped
      cases hskipped
  | hook item =>
    obtain ⟨-, -, rfl⟩ | ⟨params, stores, -, -, -, -, rfl, -⟩ := hookRound_settled h
    · rfl
    · rw [isSkipped_replaced] at hskipped
      cases hskipped
  | tombstone hash =>
    obtain ⟨-, -, rfl, -⟩ | ⟨t, -, -, -, rfl, -⟩ := tombstoneRound_settled h
    · rfl
    · cases hskipped
  | link item =>
    obtain ⟨-, -, rfl, -⟩ | ⟨name, hash, record, link, -, -, -, -, -, -, -, rfl | rfl, -⟩ :=
      linkRound_settled h
    · rfl
    · cases hskipped
    · cases hskipped

theorem isUnlocked_nil {unlockedTopics : List Text} {topic? : Option Value}
    (h : isUnlocked unlockedTopics topic? = some false) : isUnlocked [] topic? = some false := by
  cases topic? with
  | none => rfl
  | some topic =>
    cases topic with
    | str t => exact congrArg some (decide_eq_false List.not_mem_nil)
    | list items => cases h
    | dict fields => cases h
    | _ => rfl

/-- A link that is restored is restored so where no binding has failed. -/
theorem restoreLinkItem_nil {item : Value} {result : LinkOutcome} {links : LinkStore}
    (h : restoreLinkItem P backend assertUsable clock r item = .ok (result, links)) :
    restoreLinkItem P backend assertUsable clock ⟨r.stores, []⟩ item = .ok (result, links) := by
  unfold restoreLinkItem at h ⊢
  split at h
  · split at h
    · cases h
    · next record hrecord =>
      simp only at h
      split at h
      · cases h
      · cases h
      · next hunlocked =>
        simp only [isUnlocked_nil hunlocked]
        exact h
  · cases h

/-- An entry that is not skipped does the same where no binding has failed. -/
theorem entryRound_nil
    (h : entryRound M P backend assertUsable clock start r entry = .settled outcome r')
    (hkept : outcome.isSkipped = false) :
    entryRound M P backend assertUsable clock start ⟨r.stores, []⟩ entry =
      .settled outcome ⟨r'.stores, []⟩ := by
  cases entry with
  | verifier topic binding =>
    rw [entryRound] at h
    obtain ⟨-, rfl, -⟩ | ⟨-, -, rfl, -⟩ | ⟨model, htopic, -, hset, rfl, -⟩ :=
      verifierRound_settled h
    · cases hkept
    · cases hkept
    · simp only [entryRound, verifierRound, if_neg htopic, hset]
  | hook item =>
    obtain ⟨error, rfl, -⟩ | ⟨params, stores, hparams, -, husable, hstores, rfl, rfl⟩ :=
      hookRound_settled h
    · cases hkept
    · simp only [entryRound, hookRound, hparams, husable, hstores, List.not_mem_nil, if_false]
  | tombstone hash =>
    obtain ⟨error, rfl, -⟩ | ⟨t, rfl, rfl, hvalid, rfl, hscript, rfl⟩ := tombstoneRound_settled h
    · cases hkept
    · obtain ⟨killed, hkilled⟩ := Option.isSome_iff_exists.mp hscript
      have hpair : r.stores.links.tombstoneScript t =
          (some killed, (r.stores.links.tombstoneScript t).2) := Prod.ext hkilled rfl
      simp only [entryRound, tombstoneRound, restoreTombstone, reduceCtorEq, if_false, hvalid,
        if_true]
      rw [hpair]
  | link item =>
    simp only [entryRound] at h ⊢
    unfold linkRound at h ⊢
    split at h
    · obtain ⟨rfl, -⟩ := Round.settled.inj h
      cases hkept
    · cases h
    · next result links hitem =>
      obtain ⟨rfl, rfl⟩ := Round.settled.inj h
      rw [restoreLinkItem_nil hitem]

/-- The entries that were not skipped, in order. -/
def keptOf (trace : List (Entry × Outcome)) : List (Entry × Outcome) :=
  trace.filter fun x => !x.2.isSkipped

/-- What was written is what the entries that were not skipped write alone. -/
theorem Settles.alone (h : Settles (entryRound M P backend assertUsable clock start) r trace r') :
    Settles (entryRound M P backend assertUsable clock start) ⟨r.stores, []⟩ (keptOf trace)
      ⟨r'.stores, []⟩ := by
  induction h with
  | nil r => exact .nil _
  | @cons r r' r'' entry outcome trace first rest ih =>
    unfold keptOf
    rw [List.filter_cons]
    cases hskipped : outcome.isSkipped with
    | true =>
      rw [← stores_of_skipped first hskipped]
      exact ih
    | false => exact .cons (entryRound_nil first hskipped) ih

/-- A round of the trace, with where it took place. -/
theorem Settles.round_of_mem {α : Type} {round : Restore η β → α → Round η β}
    {trace : List (α × Outcome)} (h : Settles round r trace r') {x : α × Outcome} (hx : x ∈ trace) :
    ∃ r₁ r₂, round r₁ x.1 = .settled x.2 r₂ := by
  induction h with
  | nil r => cases hx
  | cons first _ ih =>
    rcases List.mem_cons.mp hx with rfl | hx
    · exact ⟨_, _, first⟩
    · exact ih hx

/-! ## Tombstones before links -/

/-- The hash is revoked, and has no record. -/
def Stores.Buried (s : Stores η β) (hash : Text) : Prop :=
  s.links.tombs hash = true ∧ s.links.records hash = none

/-- What is buried stays so. -/
theorem buried_of_settled {hash : Text}
    (h : entryRound M P backend assertUsable clock start r entry = .settled outcome r')
    (hburied : r.stores.Buried hash) : r'.stores.Buried hash := by
  cases entry with
  | verifier topic binding =>
    rw [entryRound] at h
    obtain ⟨-, -, hlinks⟩ := verifierRound_frame h
    unfold Stores.Buried
    rwa [hlinks]
  | hook item =>
    obtain ⟨-, -, rfl⟩ | ⟨params, stores, -, -, -, hstores, -, rfl⟩ := hookRound_settled h
    · exact hburied
    · unfold register at hstores
      dsimp only at hstores
      split_ifs at hstores
      obtain rfl := Option.some.inj hstores
      exact hburied
  | tombstone other =>
    obtain ⟨-, -, rfl, -⟩ | ⟨t, -, -, -, -, -, rfl⟩ := tombstoneRound_settled h
    · exact hburied
    · by_cases heq : hash = t
      · subst heq
        exact LinkStore.buried_tombstoneScript _ _
      · refine ⟨?_, (LinkStore.records_tombstoneScript heq).trans hburied.2⟩
        show (r.stores.links.tombstoneScript t).2.tombs hash = true
        rw [LinkStore.tombs_tombstoneScript]
        exact LinkStore.tombs_setTomb hburied.1
  | link item =>
    obtain ⟨-, -, rfl, -⟩ | ⟨name, t, record, link, -, -, -, -, -, -, htomb, -, rfl⟩ :=
      linkRound_settled h
    · exact hburied
    · refine ⟨?_, ?_⟩
      · show (r.stores.links.restoreScript name t link.record link.ttl).2.tombs hash = true
        rw [LinkStore.tombs_restoreScript]
        exact hburied.1
      · by_contra hsome
        obtain ⟨kept, hkept⟩ := Option.ne_none_iff_exists'.mp hsome
        rcases LinkStore.records_restoreScript hkept with hold | ⟨rfl, -, hfree⟩
        · rw [hburied.2] at hold
          cases hold
        · rw [hburied.1] at hfree
          cases hfree

theorem Settles.buried {hash : Text}
    (h : Settles (entryRound M P backend assertUsable clock start) r trace r')
    (hburied : r.stores.Buried hash) : r'.stores.Buried hash := by
  induction h with
  | nil r => exact hburied
  | cons first _ ih => exact ih (buried_of_settled first hburied)

/-- A tombstone of the trace has buried its hash in the end. -/
theorem Settles.buried_of_mem {hash : Text} (hvalid : hashValid hash = true)
    (h : Settles (entryRound M P .redis assertUsable clock start) r trace r')
    (hmem : .tombstone (.str hash) ∈ trace.map Prod.fst) : r'.stores.Buried hash := by
  induction h with
  | nil r => cases hmem
  | @cons r r' r'' entry outcome trace first rest ih =>
    rcases List.mem_cons.mp hmem with rfl | hmem
    · refine rest.buried ?_
      rw [entryRound] at first
      obtain ⟨-, -, -, hnot⟩ | ⟨t, -, ht, -, -, -, rfl⟩ := tombstoneRound_settled first
      · exact absurd ⟨rfl, hash, rfl, hvalid⟩ hnot
      · obtain rfl := Value.str.inj ht
        exact LinkStore.buried_tombstoneScript _ _
    · exact ih hmem

/-- A link whose hash is buried is skipped. -/
theorem Settles.skipped_of_buried {hash : Text}
    (h : Settles (entryRound M P backend assertUsable clock start) r trace r')
    (hburied : r.stores.Buried hash) {item : Value} (hmem : (.link item, outcome) ∈ trace)
    (hhash : item.get (text "token_hash") = some (.str hash)) :
    ∃ error, outcome = .skipped error := by
  induction h with
  | nil r => cases hmem
  | cons first _ ih =>
    rcases List.mem_cons.mp hmem with heq | hmem
    · obtain ⟨rfl, rfl⟩ := Prod.mk.inj heq
      obtain ⟨error, rfl, -⟩ | ⟨name, t, record, link, -, -, ht, -, -, -, htomb, -⟩ :=
        linkRound_settled first
      · exact ⟨error, rfl⟩
      · rw [hhash, Option.some.injEq] at ht
        obtain rfl := Value.str.inj ht
        rw [hburied.1] at htomb
        cases htomb
    · exact ih (buried_of_settled first hburied) hmem

/-! ## No round raises -/

namespace Envelope

/-- The entries that come before the links. -/
def beforeLinks (e : Envelope) : List Entry :=
  e.topicVerifiers.map (fun entry => .verifier entry.1 entry.2) ++
    (e.hooks.map .hook ++ e.tombstones.map .tombstone)

theorem entries_eq (e : Envelope) : e.entries = e.beforeLinks ++ e.triggerLinks.map .link :=
  (List.append_assoc ..).symm

theorem link_notMem_beforeLinks (e : Envelope) (item : Value) : .link item ∉ e.beforeLinks := by
  simp [beforeLinks]

end Envelope

/-- No entry of the envelope meets an exception that its loop does not catch: each binding that is
valid can be encoded, the record that a tombstone deletes can be decoded, and the topic that a link
names has a hash. -/
structure Importable (M : Models η β) (backend : Backend) (s : Stores η β) (e : Envelope) :
    Prop where
  bindings : backend = .redis → ∀ topic binding model, (topic, binding) ∈ e.topicVerifiers →
    topic ≠ [] → M.bindingOf binding = some model →
      encodes topic = true ∧ M.bindingDumps model = true
  tombstones : backend = .redis → ∀ hash, .str hash ∈ e.tombstones → hashValid hash = true →
    ∀ kept, s.links.records hash = some kept → kept.value.decodes = true
  links : ∀ item ∈ e.triggerLinks, ∀ topic, linkTopic item = some topic → topic.hashable = true

/-- The records are those of the start, or gone. -/
def OnlyFewer (start : Stores η β) (r : Restore η β) : Prop :=
  ∀ hash kept, r.stores.links.records hash = some kept → start.links.records hash = some kept

theorem OnlyFewer.settled (hr : OnlyFewer start r) (hlink : ∀ item, entry ≠ .link item)
    (h : entryRound M P backend assertUsable clock s r entry = .settled outcome r') :
    OnlyFewer start r' := by
  cases entry with
  | verifier topic binding =>
    rw [entryRound] at h
    obtain ⟨-, -, hlinks⟩ := verifierRound_frame h
    unfold OnlyFewer
    rwa [hlinks]
  | hook item =>
    obtain ⟨-, -, rfl⟩ | ⟨params, stores, -, -, -, hstores, -, rfl⟩ := hookRound_settled h
    · exact hr
    · obtain ⟨hlinks, -⟩ := links_register hstores
      unfold OnlyFewer
      rwa [hlinks]
  | tombstone hash =>
    obtain ⟨-, -, rfl, -⟩ | ⟨t, -, -, -, -, -, rfl⟩ := tombstoneRound_settled h
    · exact hr
    · intro other kept hrecord
      by_cases heq : other = t
      · subst heq
        have hnone := (LinkStore.buried_tombstoneScript r.stores.links other).2
        rw [hnone] at hrecord
        cases hrecord
      · exact hr other kept ((LinkStore.records_tombstoneScript heq).symm.trans hrecord)
  | link item => exact absurd rfl (hlink item)

/-- What a round that raises has met. -/
theorem raised_of_importable (himport : Importable M backend start e)
    (hkeys : ∀ key fingerprint, assertUsable key fingerprint ≠ .raised) (hmem : entry ∈ e.entries)
    (hr : (∀ item, entry ≠ .link item) → OnlyFewer start r) (stores : Stores η β) :
    entryRound M P backend assertUsable clock s r entry ≠ .raised stores := by
  intro h
  unfold Envelope.entries Envelope.gated at hmem
  simp only [List.mem_append, List.mem_map] at hmem
  rcases hmem with ⟨⟨topic, binding⟩, hmem, rfl⟩ | (⟨item, hmem, rfl⟩ | ⟨hash, hmem, rfl⟩) |
    ⟨item, hmem, rfl⟩
  · simp only [entryRound, verifierRound] at h
    split_ifs at h with htopic
    unfold setTopicVerifier at h
    cases hmodel : M.bindingOf binding with
    | none =>
      rw [hmodel] at h
      cases h
    | some model =>
      rw [hmodel] at h
      cases backend with
      | inMemory => cases h
      | redis =>
        obtain ⟨hencodes, hdumps⟩ := himport.bindings rfl topic binding model hmem htopic hmodel
        simp only [hencodes, hdumps] at h
        cases h
  · obtain ⟨-, params, -, hraised⟩ := hookRound_raised h
    exact hkeys _ _ hraised
  · obtain ⟨t, hredis, rfl, hvalid, hnone, -⟩ := tombstoneRound_raised h
    obtain ⟨kept, hkept, hdecodes⟩ := LinkStore.exists_of_tombstoneScript_none hnone
    have hold := hr (fun item heq => by cases heq) t kept hkept
    rw [himport.tombstones hredis t hmem hvalid kept hold] at hdecodes
    cases hdecodes
  · obtain ⟨-, ⟨topic, htopic, hhash⟩ | ⟨key, fingerprint, hraised⟩⟩ := linkRound_raised h
    · rw [himport.links item hmem topic htopic] at hhash
      cases hhash
    · exact hkeys key fingerprint hraised

theorem exists_settled {round : Round η β} (h : ∀ stores, round ≠ .raised stores) :
    ∃ outcome r', round = .settled outcome r' := by
  cases round with
  | settled outcome r' => exact ⟨outcome, r', rfl⟩
  | raised stores => exact absurd rfl (h stores)

/-- An import that meets no such exception returns. -/
theorem restoreEnvelope_ok (himport : Importable M backend start e)
    (hkeys : ∀ key fingerprint, assertUsable key fingerprint ≠ .raised) :
    ∃ p, restoreEnvelope M P backend assertUsable clock start e = .ok p := by
  rw [restoreEnvelope_eq]
  rw [Envelope.entries_eq, restoreEach_append]
  have hbefore : ∃ p, restoreEach (entryRound M P backend assertUsable clock start)
      ⟨⟨start, []⟩, .empty⟩ e.beforeLinks = .ok p ∧ OnlyFewer start p.restore := by
    refine exists_restoreEach (fun r entry hmem hr => ?_) fun _ _ => id
    have hlink : ∀ item, entry ≠ .link item := by
      rintro item rfl
      exact Envelope.link_notMem_beforeLinks e item hmem
    have hentry : entry ∈ e.entries := by
      rw [Envelope.entries_eq]
      exact List.mem_append_left _ hmem
    obtain ⟨outcome, r', hround⟩ := exists_settled (raised_of_importable (s := start) himport hkeys
      hentry fun _ => hr)
    exact ⟨outcome, r', hround, hr.settled hlink hround⟩
  obtain ⟨p, hp, -⟩ := hbefore
  have hlinks : ∃ p', restoreEach (entryRound M P backend assertUsable clock start) p
      (e.triggerLinks.map .link) = .ok p' ∧ True := by
    refine exists_restoreEach (q := fun _ => True) (fun r entry hmem _ => ?_) trivial
    have hentry : entry ∈ e.entries := by
      rw [Envelope.entries_eq]
      exact List.mem_append_right _ hmem
    obtain ⟨item, -, rfl⟩ := List.mem_map.mp hmem
    obtain ⟨outcome, r', hround⟩ := exists_settled (raised_of_importable (s := start) himport hkeys
      hentry fun hlink => absurd rfl (hlink item))
    exact ⟨outcome, r', hround, trivial⟩
  obtain ⟨p', hp', -⟩ := hlinks
  rw [hp, ok_bind]
  exact ⟨p', hp'⟩

/-! ## An import that returns -/

/-- What is true of an import that returns, with the outcome of each of its entries. -/
structure Complete (M : Models η β) (P : Parsing) (backend : Backend)
    (assertUsable : Text → Text → KeyVerdict) (clock : ℤ) (start : Stores η β) (e : Envelope)
    (s : Stores η β) (report : SectionReport) (trace : List (Entry × Outcome)) : Prop where
  entries : trace.map Prod.fst = e.entries
  /-- Each entry is counted once, by its outcome. -/
  counted : report = .of (trace.map Prod.snd)
  total : report.created + report.updated + report.skipped +
    (trace.map Prod.snd).countP Outcome.isBuried = e.entries.length
  /-- The restored tombstones are counted nowhere. -/
  uncounted : ∀ x ∈ trace, x.2.isBuried = true ↔
    backend = .redis ∧ ∃ hash, x.1 = .tombstone (.str hash) ∧ hashValid hash = true
  malformed : ∀ x ∈ trace, ¬x.1.WellFormed M P clock → ∃ error, x.2 = .skipped (some error)
  /-- The entries that were skipped change nothing. -/
  alone : restoreEach (entryRound M P backend assertUsable clock start) ⟨⟨start, []⟩, .empty⟩
      ((keptOf trace).map Prod.fst) = .ok ⟨⟨s, []⟩, .of ((keptOf trace).map Prod.snd)⟩
  /-- A tombstone beats the links with its hash. -/
  buried : ∀ hash, .str hash ∈ e.tombstones → hashValid hash = true →
    (backend = .redis → s.Buried hash) ∧ ∀ item outcome, (.link item, outcome) ∈ trace →
      item.get (text "token_hash") = some (.str hash) → ∃ error, outcome = .skipped error

theorem isBuried_iff
    (h : entryRound M P backend assertUsable clock start r entry = .settled outcome r') :
    outcome.isBuried = true ↔
      backend = .redis ∧ ∃ hash, entry = .tombstone (.str hash) ∧ hashValid hash = true := by
  cases entry with
  | verifier topic binding =>
    rw [entryRound] at h
    have hnot : outcome.isBuried = false := by
      obtain ⟨-, rfl, -⟩ | ⟨-, -, rfl, -⟩ | ⟨model, -, -, -, rfl, -⟩ := verifierRound_settled h
      · rfl
      · rfl
      · exact isBuried_replaced _
    rw [hnot]
    simp
  | hook item =>
    have hnot : outcome.isBuried = false := by
      obtain ⟨error, rfl, -⟩ | ⟨params, stores, -, -, -, -, rfl, -⟩ := hookRound_settled h
      · rfl
      · exact isBuried_replaced _
    rw [hnot]
    simp
  | tombstone hash =>
    obtain ⟨error, rfl, -, hnot⟩ | ⟨t, hredis, rfl, hvalid, rfl, -⟩ := tombstoneRound_settled h
    · refine iff_of_false Bool.false_ne_true ?_
      rintro ⟨hredis, t, ht, hvalid⟩
      exact hnot ⟨hredis, t, Entry.tombstone.inj ht, hvalid⟩
    · exact iff_of_true rfl ⟨hredis, t, rfl, hvalid⟩
  | link item =>
    have hnot : outcome.isBuried = false := by
      obtain ⟨error, rfl, -⟩ | ⟨name, hash, record, link, -, -, -, -, -, -, -, rfl | rfl, -⟩ :=
        linkRound_settled h
      · rfl
      · rfl
      · rfl
    rw [hnot]
    simp

/-- A link whose hash is revoked in the envelope is skipped. -/
theorem skipped_of_dead (hentries : trace.map Prod.fst = e.entries)
    (h : Settles (entryRound M P backend assertUsable clock start) r trace r') {hash : Text}
    (hmem : .str hash ∈ e.tombstones) (hvalid : hashValid hash = true) {item : Value}
    (hlink : (.link item, outcome) ∈ trace)
    (hhash : item.get (text "token_hash") = some (.str hash)) :
    ∃ error, outcome = .skipped error := by
  rw [Envelope.entries_eq] at hentries
  obtain ⟨before, links, rfl, hbefore, hlinks⟩ := List.map_eq_append_iff.mp hentries
  obtain ⟨r₁, hfirst, hrest⟩ := h.of_append
  have hin : (.link item, outcome) ∈ links := by
    refine (List.mem_append.mp hlink).resolve_left fun hnot => ?_
    have hfst := List.mem_map_of_mem (f := Prod.fst) hnot
    rw [hbefore] at hfst
    exact e.link_notMem_beforeLinks item hfst
  cases backend with
  | redis =>
    refine hrest.skipped_of_buried (hfirst.buried_of_mem hvalid ?_) hin hhash
    rw [hbefore]
    simp [Envelope.beforeLinks, hmem]
  | inMemory =>
    obtain ⟨r₂, r₃, hround⟩ := hrest.round_of_mem hin
    obtain ⟨error, hskipped, -⟩ | ⟨_, _, _, _, hredis, -⟩ := linkRound_settled hround
    · exact ⟨error, hskipped⟩
    · cases hredis

theorem complete_of_ok {p : Progress η β}
    (h : restoreEnvelope M P backend assertUsable clock start e = .ok p) :
    ∃ trace, Complete M P backend assertUsable clock start e p.restore.stores p.report trace := by
  rw [restoreEnvelope_eq] at h
  obtain ⟨trace, hentries, hsettles, hreport⟩ := exists_settles h
  have hof : p.report = .of (trace.map Prod.snd) := hreport.trans (SectionReport.foldl_add_of [] _)
  refine ⟨trace, hentries, hof, ?_, fun x hx => ?_, fun x hx hmalformed => ?_, ?_,
    fun hash hmem hvalid => ?_⟩
  · rw [hof, SectionReport.total_of, ← hentries, List.length_map, List.length_map]
  · obtain ⟨r₁, r₂, hround⟩ := hsettles.round_of_mem hx
    exact isBuried_iff hround
  · obtain ⟨r₁, r₂, hround⟩ := hsettles.round_of_mem hx
    exact skipped_of_malformed hround hmalformed
  · rw [hsettles.alone.restoreEach .empty]
    exact congrArg (fun report => Except.ok (⟨_, report⟩ : Progress η β))
      (SectionReport.foldl_add_of [] _)
  · refine ⟨?_, fun item outcome hlink hhash => ?_⟩
    · rintro rfl
      refine hsettles.buried_of_mem hvalid ?_
      rw [hentries]
      unfold Envelope.entries Envelope.gated
      simp [hmem]
    · exact skipped_of_dead hentries hsettles hmem hvalid hlink hhash

/-- An import whose envelope has passed the checks returns where no entry meets an exception that
its loop does not catch; where it returns, each entry has been restored or skipped by itself; and
wherever it ends, nothing is written on a topic whose binding is not stored. -/
theorem restored_per_entry {liveByName : List (Text × Text)} {payload : Value}
    (hshape : envelopeOf payload = .ok e)
    (honce : bindsEachHashOnce e.triggerLinks liveByName = true)
    (hkeys : ∀ key fingerprint, assertUsable key fingerprint ≠ .raised) :
    (Importable M backend start e →
      (importWebhooks M P backend assertUsable clock liveByName start payload).isOk = true) ∧
    (∀ s report, importWebhooks M P backend assertUsable clock liveByName start payload =
      .ok (s, report) →
        ∃ trace, Complete M P backend assertUsable clock start e s report trace) ∧
    ∀ s, (importWebhooks M P backend assertUsable clock liveByName start payload = .error s ∨
      ∃ report, importWebhooks M P backend assertUsable clock liveByName start payload =
        .ok (s, report)) → LockSafe M start e s := by
  have himport : importWebhooks M P backend assertUsable clock liveByName start payload =
      (restoreEnvelope M P backend assertUsable clock start e).map fun p =>
        (p.restore.stores, p.report) := by
    unfold importWebhooks
    split
    · cases hshape
    · rw [hshape]
      simp only [honce, if_true]
  rw [himport]
  have hsafe : LockSafe M start e
      (ended (restoreEnvelope M P backend assertUsable clock start e)) := lockSafe_ended start e
  refine ⟨fun hclean => ?_, fun s report hreturned => ?_, fun s hends => ?_⟩
  · obtain ⟨p, hp⟩ := restoreEnvelope_ok hclean hkeys
    rw [hp]
    rfl
  · cases hrestore : restoreEnvelope M P backend assertUsable clock start e with
    | error stores =>
      rw [hrestore] at hreturned
      cases hreturned
    | ok p =>
      rw [hrestore] at hreturned
      obtain ⟨rfl, rfl⟩ := Prod.mk.inj (Except.ok.inj hreturned)
      exact complete_of_ok hrestore
  · cases hrestore : restoreEnvelope M P backend assertUsable clock start e with
    | error stores =>
      rw [hrestore] at hends hsafe
      rcases hends with heq | ⟨report, heq⟩
      · obtain rfl := Except.error.inj heq
        exact hsafe
      · cases heq
    | ok p =>
      rw [hrestore] at hends hsafe
      rcases hends with heq | ⟨report, heq⟩
      · cases heq
      · obtain ⟨rfl, -⟩ := Prod.mk.inj (Except.ok.inj heq)
        exact hsafe

/-! ## Two payloads -/

/-- Hooks and bindings of which only the fields are checked that the import reads. -/
def someModels : Models (Text × Text × Text × Text) Text where
  hookOf item := do
    let name ← (item.get (text "name")).bind Value.asText
    let topic ← (item.get (text "topic")).bind Value.asText
    let _ ← (item.get (text "tool")).bind Value.asText
    let executionKey ← (item.get (text "execution_key")).bind Value.asMeasuredText
    let fingerprint ← (item.get (text "execution_key_fingerprint")).bind Value.asMeasuredText
    guard (executionKey ≠ [] ∧ fingerprint ≠ [])
    return (name, topic, executionKey, fingerprint)
  name hook := hook.1
  topic hook := hook.2.1
  executionKey hook := hook.2.2.1
  executionKeyFingerprint hook := hook.2.2.2
  jqFieldsCompile _ := true
  hookDumps hook := encodes hook.1 && encodes hook.2.1
  bindingOf binding := do
    let verifier ← (binding.get (text "verifier")).bind Value.asMeasuredText
    guard (verifier ≠ [])
    return verifier
  bindingDumps _ := true

def someStamp : Text := text "2026-07-21T00:00:00+00:00"

def someParsing : Parsing where
  laxBool
    | .bool b => some b
    | _ => none
  fromisoformat stamp := if stamp = someStamp then .at 1784592000000000 else .unparseable

def noStores : Stores (Text × Text × Text × Text) Text where
  hooks := []
  nameTopicMap := []
  verifiers _ := none
  links := ⟨0, fun _ => none, fun _ => none, fun _ => false⟩

def someHash : Text := List.replicate 64 97

def otherHash : Text := List.replicate 64 98

/-- An entry of `trigger_links` under a name, with its topic. -/
def linkItem (name : String) (hash : Text) (topic : Value) : Value :=
  .dict [(text "name", .str (text name)), (text "token_hash", .str hash),
    (text "record", .dict [(text "name", .str (text name)), (text "topic", topic),
      (text "execution_key", .str (text "k-fire")),
      (text "execution_key_fingerprint", .str (text "fp")), (text "require_api_key", .bool false),
      (text "created_at", .str someStamp), (text "expires_at", .null)])]

def linkPayload (bindings : List (Text × Value)) (links tombstones : List Value) : Value :=
  .dict [(text "hooks", .list []), (text "topic_verifiers", .dict bindings),
    (text "trigger_links", .list links), (text "tombstones", .list tombstones)]

/-- The import into empty stores, with usable keys. -/
def importInto (payload : Value) :
    Except (Stores (Text × Text × Text × Text) Text)
      (Stores (Text × Text × Text × Text) Text × SectionReport) :=
  importWebhooks someModels someParsing .redis (fun _ _ => .usable) 0 [] noStores payload

/-- A link on a topic whose binding is refused, one whose hash is revoked, and a sound one. -/
def gatedPayload : Value :=
  linkPayload [(text "locked", .dict [])]
    [linkItem "a" someHash (.str (text "open")), linkItem "b" otherHash (.str (text "locked")),
      linkItem "c" (List.replicate 64 99) (.str (text "open"))] [.str someHash]

/-- A link on a locked topic and a revoked one are skipped, and the one after them is restored. -/
theorem restored_after_skips : ∃ e s report trace, envelopeOf gatedPayload = .ok e ∧
    importInto gatedPayload = .ok (s, report) ∧ report.created = 1 ∧ report.skipped = 3 ∧
    Complete someModels someParsing .redis (fun _ _ => .usable) 0 noStores e s report trace ∧
    LockSafe someModels noStores e s := by
  obtain ⟨e, he⟩ := exists_ok_of_isOk (x := envelopeOf gatedPayload) (by decide +kernel)
  have hscan : ((envelopeOf gatedPayload).toOption.any fun e =>
      bindsEachHashOnce e.triggerLinks []) = true := by decide +kernel
  have hrun : ((importInto gatedPayload).toOption.any fun x =>
      x.2.created == 1 && x.2.skipped == 3) = true := by decide +kernel
  rw [he] at hscan
  cases himport : importInto gatedPayload with
  | error s =>
    rw [himport] at hrun
    cases hrun
  | ok x =>
    obtain ⟨s, report⟩ := x
    rw [himport] at hrun
    obtain ⟨hcreated, hskipped⟩ := Bool.and_eq_true_iff.mp hrun
    have hfacts : (Importable someModels .redis noStores e →
          (importInto gatedPayload).isOk = true) ∧
        (∀ s report, importInto gatedPayload = .ok (s, report) →
          ∃ trace, Complete someModels someParsing .redis (fun _ _ => .usable) 0 noStores e s report
            trace) ∧
        ∀ s, (importInto gatedPayload = .error s ∨
          ∃ report, importInto gatedPayload = .ok (s, report)) → LockSafe someModels noStores e s :=
      restored_per_entry he hscan fun _ _ => KeyVerdict.noConfusion
    obtain ⟨-, hcomplete, hsafe⟩ := hfacts
    obtain ⟨trace, htrace⟩ := hcomplete s report himport
    exact ⟨e, s, report, trace, he, rfl, eq_of_beq hcreated, eq_of_beq hskipped, htrace,
      hsafe s (.inr ⟨report, himport⟩)⟩

/-- A tombstone that is restored is counted nowhere; and a link whose topic is a list ends an import
before the link after it, which alone is restored. -/
theorem uncounted_and_cut_off :
    (∃ s report, importInto (linkPayload [] [] [.str someHash]) = .ok (s, report) ∧
      report.created + report.updated + report.skipped = 0 ∧ s.links.tombs someHash = true) ∧
    (∃ s, importInto (linkPayload [] [linkItem "a" someHash (.list []),
      linkItem "b" otherHash (.str (text "t"))] []) = .error s ∧
        s.links.records otherHash = none) ∧
    ∃ s report, importInto (linkPayload [] [linkItem "b" otherHash (.str (text "t"))] []) =
      .ok (s, report) ∧ report.created = 1 := by
  refine ⟨?_, ?_, ?_⟩
  · have hrun : ((importInto (linkPayload [] [] [.str someHash])).toOption.any fun x =>
        x.2.created + x.2.updated + x.2.skipped == 0 && x.1.links.tombs someHash) = true := by
      decide +kernel
    cases himport : importInto (linkPayload [] [] [.str someHash]) with
    | error s =>
      rw [himport] at hrun
      cases hrun
    | ok x =>
      rw [himport] at hrun
      obtain ⟨hcounted, htomb⟩ := Bool.and_eq_true_iff.mp hrun
      exact ⟨x.1, x.2, rfl, eq_of_beq hcounted, htomb⟩
  · have hrun : (match importInto (linkPayload [] [linkItem "a" someHash (.list []),
        linkItem "b" otherHash (.str (text "t"))] []) with
      | .error s => (s.links.records otherHash).isNone
      | .ok _ => false) = true := by
      decide +kernel
    split at hrun
    · next s himport => exact ⟨s, himport, Option.isNone_iff_eq_none.mp hrun⟩
    · cases hrun
  · have hrun : ((importInto (linkPayload [] [linkItem "b" otherHash
        (.str (text "t"))] [])).toOption.any fun x => x.2.created == 1) = true := by
      decide +kernel
    cases himport : importInto (linkPayload [] [linkItem "b" otherHash (.str (text "t"))] []) with
    | error s =>
      rw [himport] at hrun
      cases hrun
    | ok x =>
      rw [himport] at hrun
      exact ⟨x.1, x.2, rfl, eq_of_beq hrun⟩

end TaiSkeleton.Backup.Webhooks
