import TaiSkeleton.Backup.Webhooks
import TaiSkeleton.Lib.Except

/-!
# The rounds of a webhooks restore

The four loops are one loop over the entries of the envelope. What a round can do is said once for
each kind of entry; a run of rounds that all settle is a list of the entries with their outcomes.
-/

namespace TaiSkeleton.Backup.Webhooks

open Lib Hooks

variable {η β α : Type}

/-! ## The report of a list of outcomes -/

namespace SectionReport

/-- Each outcome under its counter, and the errors in order. -/
def of (outcomes : List Outcome) : SectionReport where
  created := outcomes.countP Outcome.isCreated
  updated := outcomes.countP Outcome.isUpdated
  skipped := outcomes.countP Outcome.isSkipped
  errors := outcomes.filterMap Outcome.error?

theorem add_of (outcomes : List Outcome) (outcome : Outcome) :
    (of outcomes).add outcome = of (outcomes ++ [outcome]) := by
  unfold of
  rw [List.countP_append, List.countP_append, List.countP_append, List.filterMap_append]
  cases outcome with
  | skipped error =>
    cases error with
    | none =>
      rw [List.filterMap_cons_none rfl, List.filterMap_nil, List.append_nil]
      rfl
    | some error => rfl
  | _ =>
    rw [List.filterMap_cons_none rfl, List.filterMap_nil, List.append_nil]
    rfl

theorem foldl_add_of (outcomes outcomes' : List Outcome) :
    outcomes'.foldl add (of outcomes) = of (outcomes ++ outcomes') := by
  induction outcomes' generalizing outcomes with
  | nil => rw [List.append_nil, List.foldl_nil]
  | cons outcome outcomes' ih =>
    rw [List.foldl_cons, add_of, ih, List.append_assoc, List.singleton_append]

/-- A restored tombstone is the only entry that no counter counts. -/
theorem total_of (outcomes : List Outcome) :
    (of outcomes).created + (of outcomes).updated + (of outcomes).skipped +
      outcomes.countP Outcome.isBuried = outcomes.length := by
  unfold of
  induction outcomes with
  | nil => rfl
  | cons outcome outcomes ih =>
    simp only [List.countP_cons, List.length_cons] at ih ⊢
    cases outcome <;> simp [Outcome.isCreated, Outcome.isUpdated, Outcome.isSkipped,
      Outcome.isBuried] <;> omega

end SectionReport

/-! ## A loop -/

section Loop

variable {round : Restore η β → α → Round η β} {p p' : Progress η β} {r r' : Restore η β}
  {l l' : List α}

/-- The stores at the end of a loop, however it ends. -/
def ended : Except (Stores η β) (Progress η β) → Stores η β
  | .ok p => p.restore.stores
  | .error stores => stores

theorem restoreEach_cons (a : α) (l : List α) :
    restoreEach round p (a :: l) =
      match round p.restore a with
      | .settled outcome restore => restoreEach round ⟨restore, p.report.add outcome⟩ l
      | .raised stores => .error stores := by
  unfold restoreEach
  rw [List.foldlM_cons]
  cases round p.restore a <;> rfl

theorem restoreEach_append (l l' : List α) :
    restoreEach round p (l ++ l') = restoreEach round p l >>= fun p => restoreEach round p l' := by
  unfold restoreEach
  exact List.foldlM_append

theorem restoreEach_map {γ : Type} (g : γ → α) (l : List γ) :
    restoreEach round p (l.map g) = restoreEach (fun r c => round r (g c)) p l := by
  unfold restoreEach
  rw [List.foldlM_map]

/-- Rounds that keep an invariant and none of which raises come to the end. -/
theorem exists_restoreEach {q : Restore η β → Prop}
    (h : ∀ r, ∀ a ∈ l, q r → ∃ outcome r', round r a = .settled outcome r' ∧ q r')
    (hp : q p.restore) : ∃ p', restoreEach round p l = .ok p' ∧ q p'.restore := by
  induction l generalizing p with
  | nil => exact ⟨p, rfl, hp⟩
  | cons a l ih =>
    obtain ⟨outcome, r', hround, hr'⟩ := h p.restore a List.mem_cons_self hp
    rw [restoreEach_cons, hround]
    exact ih (fun r a hmem => h r a (List.mem_cons_of_mem _ hmem)) hr'

/-- What the rounds keep holds where the loop ends, also where it raises. -/
theorem ended_restoreEach {q : Restore η β → Prop} {t : Stores η β → Prop}
    (hq : ∀ r, q r → t r.stores)
    (hsettled : ∀ r, ∀ a ∈ l, ∀ outcome r', q r → round r a = .settled outcome r' → q r')
    (hraised : ∀ r, ∀ a ∈ l, ∀ stores, q r → round r a = .raised stores → t stores)
    (hp : q p.restore) : t (ended (restoreEach round p l)) := by
  induction l generalizing p with
  | nil => exact hq p.restore hp
  | cons a l ih =>
    rw [restoreEach_cons]
    cases hround : round p.restore a with
    | raised stores => exact hraised p.restore a List.mem_cons_self stores hp hround
    | settled outcome r' =>
      refine ih (fun r a hmem => hsettled r a (List.mem_cons_of_mem _ hmem))
        (fun r a hmem => hraised r a (List.mem_cons_of_mem _ hmem)) ?_
      exact hsettled p.restore a List.mem_cons_self outcome r' hp hround

theorem keeps_restoreEach {q : Restore η β → Prop}
    (hsettled : ∀ r, ∀ a ∈ l, ∀ outcome r', q r → round r a = .settled outcome r' → q r')
    (h : restoreEach round p l = .ok p') (hp : q p.restore) : q p'.restore := by
  induction l generalizing p with
  | nil =>
    obtain rfl := Except.ok.inj h
    exact hp
  | cons a l ih =>
    rw [restoreEach_cons] at h
    cases hround : round p.restore a with
    | raised stores =>
      rw [hround] at h
      cases h
    | settled outcome r' =>
      rw [hround] at h
      refine ih (fun r a hmem => hsettled r a (List.mem_cons_of_mem _ hmem)) h ?_
      exact hsettled p.restore a List.mem_cons_self outcome r' hp hround

/-- The rounds over the entries settle with their outcomes, one after another. -/
inductive Settles (round : Restore η β → α → Round η β) :
    Restore η β → List (α × Outcome) → Restore η β → Prop where
  | nil (r : Restore η β) : Settles round r [] r
  | cons {r r' r'' : Restore η β} {a : α} {outcome : Outcome} {trace : List (α × Outcome)}
    (first : round r a = .settled outcome r') (rest : Settles round r' trace r'') :
    Settles round r ((a, outcome) :: trace) r''

/-- A loop that returns has settled each of its entries. -/
theorem exists_settles (h : restoreEach round p l = .ok p') :
    ∃ trace : List (α × Outcome), trace.map Prod.fst = l ∧
      Settles round p.restore trace p'.restore ∧
      p'.report = (trace.map Prod.snd).foldl SectionReport.add p.report := by
  induction l generalizing p with
  | nil =>
    obtain rfl := Except.ok.inj h
    exact ⟨[], rfl, .nil _, rfl⟩
  | cons a l ih =>
    rw [restoreEach_cons] at h
    cases hround : round p.restore a with
    | raised stores =>
      rw [hround] at h
      cases h
    | settled outcome r' =>
      rw [hround] at h
      obtain ⟨trace, hfst, htrace, hreport⟩ := ih h
      exact ⟨(a, outcome) :: trace, by rw [List.map_cons, hfst], .cons hround htrace, hreport⟩

theorem Settles.restoreEach {trace : List (α × Outcome)} (h : Settles round r trace r')
    (report : SectionReport) :
    restoreEach round ⟨r, report⟩ (trace.map Prod.fst) =
      .ok ⟨r', (trace.map Prod.snd).foldl SectionReport.add report⟩ := by
  induction h generalizing report with
  | nil r => rfl
  | cons first _ ih =>
    rw [List.map_cons, restoreEach_cons, first]
    exact ih _

theorem Settles.of_append {trace trace' : List (α × Outcome)}
    (h : Settles round r (trace ++ trace') r') :
    ∃ r₁, Settles round r trace r₁ ∧ Settles round r₁ trace' r' := by
  induction trace generalizing r with
  | nil => exact ⟨r, .nil r, h⟩
  | cons x trace ih =>
    cases h with
    | cons first rest =>
      obtain ⟨r₁, hbefore, hafter⟩ := ih rest
      exact ⟨r₁, .cons first hbefore, hafter⟩

end Loop

/-! ## What a round can do -/

section Rounds

variable {M : Models η β} {P : Parsing} {backend : Backend}
  {assertUsable : Text → Text → KeyVerdict} {clock : ℤ} {existing : Text → Bool}
  {r r' : Restore η β} {stores : Stores η β} {outcome : Outcome}

/-- A binding is refused, with its topic noted unless that is empty, or stored. -/
theorem verifierRound_settled {topic : Text} {binding : Value}
    (h : verifierRound M backend existing r (topic, binding) = .settled outcome r') :
    (topic = [] ∧ outcome = .skipped (some (.emptyTopic topic)) ∧ r' = r) ∨
    (topic ≠ [] ∧ M.bindingOf binding = none ∧ outcome = .skipped (some (.binding topic)) ∧
      r' = { r with unlockedTopics := topic :: r.unlockedTopics }) ∨
    ∃ model, topic ≠ [] ∧ M.bindingOf binding = some model ∧
      setTopicVerifier M backend r.stores topic binding = .ok r'.stores ∧
      outcome = replaced (existing topic) ∧
      r' = ⟨{ r.stores with verifiers := Function.update r.stores.verifiers topic (some model) },
        r.unlockedTopics⟩ := by
  simp only [verifierRound] at h
  split_ifs at h with htopic
  · obtain ⟨rfl, rfl⟩ := Round.settled.inj h
    exact .inl ⟨htopic, rfl, rfl⟩
  · refine .inr ?_
    cases hmodel : M.bindingOf binding with
    | none =>
      simp only [setTopicVerifier, hmodel] at h
      obtain ⟨rfl, rfl⟩ := Round.settled.inj h
      exact .inl ⟨htopic, rfl, rfl, rfl⟩
    | some model =>
      refine .inr ⟨model, htopic, rfl, ?_⟩
      simp only [setTopicVerifier, hmodel] at h ⊢
      split_ifs at h ⊢
      · obtain ⟨rfl, rfl⟩ := Round.settled.inj h
        exact ⟨rfl, rfl, rfl⟩

theorem verifierRound_raised {entry : Text × Value}
    (h : verifierRound M backend existing r entry = .raised stores) : stores = r.stores := by
  simp only [verifierRound] at h
  split_ifs at h
  split at h
  · cases h
  · exact (Round.raised.inj h).symm
  · cases h

/-- A hook is refused, or registered on a topic without a failed binding. -/
theorem hookRound_settled {item : Value}
    (h : hookRound M backend assertUsable existing r item = .settled outcome r') :
    (∃ error, outcome = .skipped (some error) ∧ r' = r) ∨
    ∃ params stores, M.hookOf item = some params ∧ M.topic params ∉ r.unlockedTopics ∧
      assertUsable (M.executionKey params) (M.executionKeyFingerprint params) = .usable ∧
      register M backend r.stores params = some stores ∧
      outcome = replaced (existing (M.name params)) ∧ r' = { r with stores } := by
  simp only [hookRound] at h
  split at h
  · obtain ⟨rfl, rfl⟩ := Round.settled.inj h
    exact .inl ⟨_, rfl, rfl⟩
  · next params hparams =>
    split_ifs at h with hunlocked
    · obtain ⟨rfl, rfl⟩ := Round.settled.inj h
      exact .inl ⟨_, rfl, rfl⟩
    · split at h
      · obtain ⟨rfl, rfl⟩ := Round.settled.inj h
        exact .inl ⟨_, rfl, rfl⟩
      · cases h
      · next husable =>
        split at h
        · obtain ⟨rfl, rfl⟩ := Round.settled.inj h
          exact .inl ⟨_, rfl, rfl⟩
        · next stores hstores =>
          obtain ⟨rfl, rfl⟩ := Round.settled.inj h
          exact .inr ⟨params, stores, hparams, hunlocked, husable, hstores, rfl, rfl⟩

theorem hookRound_raised {item : Value}
    (h : hookRound M backend assertUsable existing r item = .raised stores) :
    stores = r.stores ∧ ∃ params, M.hookOf item = some params ∧
      assertUsable (M.executionKey params) (M.executionKeyFingerprint params) = .raised := by
  simp only [hookRound] at h
  split at h
  · cases h
  · next params hparams =>
    split_ifs at h
    split at h
    · cases h
    · next hraised => exact ⟨(Round.raised.inj h).symm, params, hparams, hraised⟩
    · split at h <;> cases h

/-- A tombstone is refused, or buries the record under its hash. -/
theorem tombstoneRound_settled {hash : Value}
    (h : tombstoneRound backend r hash = .settled outcome r') :
    (∃ error, outcome = .skipped (some error) ∧ r' = r ∧
      ¬(backend = .redis ∧ ∃ t, hash = .str t ∧ hashValid t = true)) ∨
    ∃ t, backend = .redis ∧ hash = .str t ∧ hashValid t = true ∧ outcome = .buried ∧
      (r.stores.links.tombstoneScript t).1.isSome = true ∧
      r' = { r with stores := { r.stores with
        links := (r.stores.links.tombstoneScript t).2 } } := by
  simp only [tombstoneRound, restoreTombstone] at h
  cases backend with
  | inMemory =>
    obtain ⟨rfl, rfl⟩ := Round.settled.inj h
    exact .inl ⟨_, rfl, rfl, fun hredis => by cases hredis.1⟩
  | redis =>
    rw [if_neg (by decide)] at h
    cases hash with
    | str t =>
      simp only at h
      split_ifs at h with hvalid
      · cases hscript : r.stores.links.tombstoneScript t with
        | mk killed links =>
          rw [hscript] at h
          cases killed with
          | none => cases h
          | some killed =>
            obtain ⟨rfl, rfl⟩ := Round.settled.inj h
            refine .inr ⟨t, rfl, rfl, hvalid, rfl, ?_, ?_⟩
            · rw [hscript]
              rfl
            · rw [hscript]
      · obtain ⟨rfl, rfl⟩ := Round.settled.inj h
        refine .inl ⟨_, rfl, rfl, ?_⟩
        rintro ⟨-, t', ht', hvalid'⟩
        obtain rfl := Value.str.inj ht'
        exact hvalid hvalid'
    | _ =>
      obtain ⟨rfl, rfl⟩ := Round.settled.inj h
      refine .inl ⟨_, rfl, rfl, ?_⟩
      rintro ⟨-, t', ht', -⟩
      cases ht'

/-- The import of a tombstone raises where its script cannot decode the record it has deleted. -/
theorem tombstoneRound_raised {hash : Value}
    (h : tombstoneRound backend r hash = .raised stores) :
    ∃ t, backend = .redis ∧ hash = .str t ∧ hashValid t = true ∧
      (r.stores.links.tombstoneScript t).1 = none ∧
      stores = { r.stores with links := (r.stores.links.tombstoneScript t).2 } := by
  simp only [tombstoneRound, restoreTombstone] at h
  cases backend with
  | inMemory => cases h
  | redis =>
    rw [if_neg (by decide)] at h
    cases hash with
    | str t =>
      simp only at h
      split_ifs at h with hvalid
      · cases hscript : r.stores.links.tombstoneScript t with
        | mk killed links =>
          rw [hscript] at h
          cases killed with
          | none =>
            obtain rfl := Round.raised.inj h
            exact ⟨t, rfl, rfl, hvalid, by rw [hscript], by rw [hscript]⟩
          | some killed => cases h
    | _ => cases h

end Rounds

/-! ## A round over the trigger links -/

/-- The entry is an object with a name, a hash and a valid record. -/
def LinkWellFormed (P : Parsing) (clock : ℤ) (item : Value) : Prop :=
  ∃ name hash record link?, item.get (text "name") = some (.str name) ∧
    item.get (text "token_hash") = some (.str hash) ∧ item.get (text "record") = some record ∧
    checkRestore name hash (TriggerRecord.ofValue P record) clock = .ok link?

/-- The topic that the record of an entry names. -/
def linkTopic (item : Value) : Option Value :=
  (item.get (text "record")).bind fun record => record.get (text "topic")

section Links

variable {P : Parsing} {backend : Backend} {assertUsable : Text → Text → KeyVerdict} {clock : ℤ}
  {r r' : Restore η β} {stores : Stores η β} {outcome : Outcome} {item : Value}

theorem notMem_of_isUnlocked {unlockedTopics : List Text} {topic : Text}
    (h : isUnlocked unlockedTopics (some (.str topic)) = some false) : topic ∉ unlockedTopics :=
  of_decide_eq_false (Option.some.inj h)

theorem not_hashable_of_isUnlocked {unlockedTopics : List Text} {topic? : Option Value}
    (h : isUnlocked unlockedTopics topic? = none) :
    ∃ topic, topic? = some topic ∧ topic.hashable = false := by
  cases topic? with
  | none => cases h
  | some topic =>
    refine ⟨topic, rfl, ?_⟩
    cases topic with
    | list items => rfl
    | dict fields => rfl
    | _ => cases h

theorem restoreLinkItem_ok {result : LinkOutcome} {links : LinkStore}
    (h : restoreLinkItem P backend assertUsable clock r item = .ok (result, links)) :
    ∃ record name hash, item.get (text "record") = some record ∧
      item.get (text "name") = some name ∧ item.get (text "token_hash") = some hash ∧
      isUnlocked r.unlockedTopics (record.get (text "topic")) = some false ∧
      restoreTriggerLink P backend assertUsable clock r.stores.links name hash record =
        .ok (result, links) := by
  unfold restoreLinkItem at h
  split at h
  · split at h
    · cases h
    · next record hrecord =>
      simp only at h
      split at h
      · cases h
      · cases h
      · next hunlocked =>
        split at h
        · cases h
        · cases h
        · next name hash hname hhash =>
          exact ⟨record, name, hash, hrecord, hname, hhash, hunlocked, h⟩
  · cases h

theorem restoreLinkItem_raised
    (h : restoreLinkItem P backend assertUsable clock r item = .error .raised) :
    (∃ topic, linkTopic item = some topic ∧ topic.hashable = false) ∨
      ∃ key fingerprint, assertUsable key fingerprint = .raised := by
  unfold restoreLinkItem at h
  split at h
  · split at h
    · cases h
    · next record hrecord =>
      simp only at h
      split at h
      · next hnone =>
        obtain ⟨topic, htopic, hhash⟩ := not_hashable_of_isUnlocked hnone
        exact .inl ⟨topic, by rw [linkTopic, hrecord]; exact htopic, hhash⟩
      · cases h
      · split at h
        · cases h
        · cases h
        · exact .inr (restoreTriggerLink_raised h)
  · cases h

/-- A link is refused or skipped, or its pair is written on a topic without a failed binding. -/
theorem linkRound_settled
    (h : linkRound P backend assertUsable clock r item = .settled outcome r') :
    (∃ error, outcome = .skipped error ∧ r' = r ∧ (error = none → LinkWellFormed P clock item)) ∨
    ∃ name hash record link, backend = .redis ∧ item.get (text "name") = some (.str name) ∧
      item.get (text "token_hash") = some (.str hash) ∧ item.get (text "record") = some record ∧
      checkRestore name hash (TriggerRecord.ofValue P record) clock = .ok (some link) ∧
      link.record.topic ∉ r.unlockedTopics ∧ r.stores.links.tombs hash = false ∧
      (outcome = .updated ∨ outcome = .created) ∧
      r' = { r with stores := { r.stores with
        links := (r.stores.links.restoreScript name hash link.record link.ttl).2 } } := by
  unfold linkRound at h
  split at h
  · obtain ⟨rfl, rfl⟩ := Round.settled.inj h
    exact .inl ⟨_, rfl, rfl, fun hnone => by cases hnone⟩
  · cases h
  · next result links hitem =>
    obtain ⟨rfl, rfl⟩ := Round.settled.inj h
    obtain ⟨record, _, _, hrecord, hname, hhash, hunlocked, hrestore⟩ := restoreLinkItem_ok hitem
    obtain ⟨name, hash, link?, hredis, rfl, rfl, hcheck, hdone⟩ := restoreTriggerLink_ok hrestore
    rcases hdone with ⟨hskipped, rfl⟩ | ⟨link, rfl, htomb, hwritten, rfl⟩
    · have hwell : LinkWellFormed P clock item :=
        ⟨name, hash, record, link?, hname, hhash, hrecord, hcheck⟩
      rcases hskipped with rfl | rfl
      · exact .inl ⟨none, rfl, rfl, fun _ => hwell⟩
      · exact .inl ⟨none, rfl, rfl, fun _ => hwell⟩
    · refine .inr ⟨name, hash, record, link, hredis, hname, hhash, hrecord, hcheck, ?_, htomb, ?_,
        rfl⟩
      · obtain ⟨-, -, hbody, -⟩ := checkRestore_spec hcheck
        rw [TriggerRecord.get_topic_of_ofValue hbody] at hunlocked
        exact notMem_of_isUnlocked hunlocked
      · rcases hwritten with rfl | rfl
        · exact .inl rfl
        · exact .inr rfl

theorem linkRound_raised (h : linkRound P backend assertUsable clock r item = .raised stores) :
    stores = r.stores ∧ ((∃ topic, linkTopic item = some topic ∧ topic.hashable = false) ∨
      ∃ key fingerprint, assertUsable key fingerprint = .raised) := by
  unfold linkRound at h
  split at h
  · cases h
  · next hraised => exact ⟨(Round.raised.inj h).symm, restoreLinkItem_raised hraised⟩
  · cases h

end Links

/-! ## One loop over the entries -/

/-- An entry of the envelope. -/
inductive Entry where
  | verifier (topic : Text) (binding : Value)
  | hook (item : Value)
  | tombstone (hash : Value)
  | link (item : Value)

/-- The entries that the bindings gate. -/
def Envelope.gated (e : Envelope) : List Entry :=
  e.hooks.map .hook ++ e.tombstones.map .tombstone ++ e.triggerLinks.map .link

/-- The entries in the order in which the import takes them. -/
def Envelope.entries (e : Envelope) : List Entry :=
  e.topicVerifiers.map (fun entry => .verifier entry.1 entry.2) ++ e.gated

section Entries

variable (M : Models η β) (P : Parsing) (backend : Backend)
  (assertUsable : Text → Text → KeyVerdict) (clock : ℤ)

/-- The round over an entry of an import that begins with these stores. -/
def entryRound (start : Stores η β) (r : Restore η β) : Entry → Round η β
  | .verifier topic binding =>
    verifierRound M backend (fun topic => (start.verifiers topic).isSome) r (topic, binding)
  | .hook item => hookRound M backend assertUsable (isListed backend start) r item
  | .tombstone hash => tombstoneRound backend r hash
  | .link item => linkRound P backend assertUsable clock r item

variable {M P backend assertUsable clock}

theorem isListed_congr {s s' : Stores η β} (hhooks : s'.hooks = s.hooks)
    (hmap : s'.nameTopicMap = s.nameTopicMap) : isListed backend s' = isListed backend s := by
  funext name
  unfold isListed
  rw [hhooks, hmap]

/-- The bindings are restored beside the hooks and the links. -/
theorem verifierRound_frame {existing : Text → Bool} {r r' : Restore η β} {entry : Text × Value}
    {outcome : Outcome} (h : verifierRound M backend existing r entry = .settled outcome r') :
    r'.stores.hooks = r.stores.hooks ∧ r'.stores.nameTopicMap = r.stores.nameTopicMap ∧
      r'.stores.links = r.stores.links := by
  obtain ⟨topic, binding⟩ := entry
  obtain ⟨-, -, rfl⟩ | ⟨-, -, -, rfl⟩ | ⟨model, -, -, -, -, rfl⟩ := verifierRound_settled h
  · exact ⟨rfl, rfl, rfl⟩
  · exact ⟨rfl, rfl, rfl⟩
  · exact ⟨rfl, rfl, rfl⟩

/-- The four loops are one loop over the entries. -/
theorem restoreEnvelope_eq (s : Stores η β) (e : Envelope) :
    restoreEnvelope M P backend assertUsable clock s e =
      restoreEach (entryRound M P backend assertUsable clock s) ⟨⟨s, []⟩, .empty⟩ e.entries := by
  unfold Envelope.entries Envelope.gated restoreEnvelope
  rw [restoreEach_append, restoreEach_map]
  simp only [entryRound]
  cases hverifiers : restoreEach (verifierRound M backend fun topic => (s.verifiers topic).isSome)
      ⟨⟨s, []⟩, .empty⟩ e.topicVerifiers with
  | error stores => rfl
  | ok p =>
    have hsame := keeps_restoreEach (q := fun r => r.stores.hooks = s.hooks ∧
      r.stores.nameTopicMap = s.nameTopicMap) (fun r entry _ outcome r' hr hround => by
        obtain ⟨hhooks, hmap, -⟩ := verifierRound_frame hround
        exact ⟨hhooks.trans hr.1, hmap.trans hr.2⟩) hverifiers ⟨rfl, rfl⟩
    rw [ok_bind, ok_bind]
    unfold restoreHooks
    rw [isListed_congr hsame.1 hsame.2]
    simp only [restoreEach_append, restoreEach_map, bind_assoc]
    rfl

end Entries

end TaiSkeleton.Backup.Webhooks
