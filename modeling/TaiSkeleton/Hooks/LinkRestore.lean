import TaiSkeleton.Hooks.LinkPairs
import TaiSkeleton.Lib.Dict

/-!
# The restore of a trigger link

`restore_trigger_link` and `restore_tombstone` on what an import hands them, which can be any JSON
value. Nothing comes between the commands of a call, and no time passes.
-/

namespace TaiSkeleton.Hooks

open Lib

/-- The code points of a string. -/
def text (s : String) : Text := s.toList.map Char.toNat

/-- The text has a UTF-8 encoding: no code point of it is a surrogate. -/
def encodes (t : Text) : Bool := t.all fun c => !isHigh c && !isLow c

namespace Value

/-- The `dict` that `json.loads` builds from the pairs of an object. -/
def entries (fields : List (Text × Value)) : List (Text × Value) :=
  fields.foldl (fun dict (key, value) => dictPut dict key value) []

theorem nodup_entries (fields : List (Text × Value)) : ((entries fields).map Prod.fst).Nodup := by
  unfold entries
  generalize hdict : ([] : List (Text × Value)) = dict
  have hnodup : (dict.map Prod.fst).Nodup := by
    subst hdict
    exact List.nodup_nil
  clear hdict
  induction fields generalizing dict with
  | nil => exact hnodup
  | cons field fields ih => exact ih _ (nodup_dictPut hnodup field.1 field.2)

/-- `dict.get`, which no other value has. -/
def get (value : Value) (key : Text) : Option Value :=
  match value with
  | .dict fields => (entries fields).lookup key
  | _ => none

/-- `hash` does not raise. -/
def hashable : Value → Bool
  | .list _ | .dict _ => false
  | _ => true

def asText : Value → Option Text
  | .str t => some t
  | _ => none

/-- A string that Pydantic measures, and decodes for that. -/
def asMeasuredText : Value → Option Text
  | .str t => if encodes t then some t else none
  | _ => none

def asDict : Value → Option (List (Text × Value))
  | .dict fields => some (entries fields)
  | _ => none

end Value

/-- A field of `T | None` with the default `None`. -/
def optionalField {α : Type} (parse : Value → Option α) : Option Value → Option (Option α)
  | none | some .null => some none
  | some value => (parse value).map some

/-- How Pydantic takes a `bool`, and `datetime.fromisoformat`. -/
structure Parsing where
  laxBool : Value → Option Bool
  fromisoformat : Text → Stamp

/-- The fields of `_TriggerRecord`; `extra="forbid"` refuses any other. -/
def recordFields : List Text :=
  ["name", "topic", "execution_key", "execution_key_fingerprint", "require_api_key", "tool_kwargs",
    "created_by", "created_at", "expires_at"].map text

/-- What the fields of `_TriggerRecord` make of a value; its validators are `valid`. -/
def TriggerRecord.ofValue (P : Parsing) (record : Value) : Option TriggerRecord := do
  let fields ← record.asDict
  guard (fields.all fun field => recordFields.contains field.1)
  let name ← (record.get (text "name")).bind Value.asText
  let topic ← (record.get (text "topic")).bind Value.asText
  let executionKey ← (record.get (text "execution_key")).bind Value.asMeasuredText
  let executionKeyFingerprint ←
    (record.get (text "execution_key_fingerprint")).bind Value.asMeasuredText
  let requireApiKey ← (record.get (text "require_api_key")).bind P.laxBool
  let toolKwargs ← optionalField Value.asDict (record.get (text "tool_kwargs"))
  let createdBy ← optionalField Value.asText (record.get (text "created_by"))
  let createdAt ← (record.get (text "created_at")).bind Value.asText
  let expiresAt ← optionalField Value.asText (record.get (text "expires_at"))
  return ⟨name, topic, executionKey, executionKeyFingerprint, requireApiKey, toolKwargs, createdBy,
    P.fromisoformat createdAt, expiresAt.map P.fromisoformat⟩

/-- The topic of a validated record is the one that the raw record names. -/
theorem TriggerRecord.get_topic_of_ofValue {P : Parsing} {value : Value} {record : TriggerRecord}
    (h : ofValue P value = some record) : value.get (text "topic") = some (.str record.topic) := by
  simp only [ofValue, Option.bind_eq_bind, Option.bind_eq_some_iff] at h
  obtain ⟨_, _, _, _, _, _, topic, ⟨raw, hraw, htopic⟩, h⟩ := h
  obtain ⟨_, _, _, _, _, _, _, _, _, _, _, _, _, _, hrecord⟩ := h
  obtain rfl := Option.some.inj hrecord
  cases raw with
  | str t =>
    obtain rfl := Option.some.inj htopic
    exact hraw
  | _ => cases htopic

/-! ## The calls -/

/-- What `ExecutionKeyScan.assert_usable` makes of a key and its fingerprint; an exception that is
no refusal is a fault of the policy store. -/
inductive KeyVerdict where
  | usable
  | refused
  | raised
deriving DecidableEq

/-- The texts of a `TriggerLinkError` in an import, and the `KeyError`. -/
inductive LinkRefusal where
  /-- `_redis_manager` on an in-memory deployment. -/
  | notSupported
  | nameType
  | hashType
  | entryType
  | topicUnlocked (topic : Text)
  | missingKey (key : Text)
  | error (e : TriggerLinkError)
deriving DecidableEq

/-- How a call ends but by returning. -/
inductive LinkFailure where
  | refused (why : LinkRefusal)
  | raised
deriving DecidableEq

/-- What `restore_trigger_link` returns. -/
inductive LinkOutcome where
  | created
  | updated
  | skippedTombstoned
  | skippedExpired
deriving DecidableEq

/-- The hooks backend of the deployment. -/
inductive Backend where
  | redis
  | inMemory
deriving DecidableEq

section Calls

variable (P : Parsing) (backend : Backend) (assertUsable : Text → Text → KeyVerdict) (clock : ℤ)

/-- The answer of `_RESTORE_LUA` and the store that it leaves. -/
def LinkStore.restored (s : LinkStore) (link : Restored) :
    Except LinkFailure (LinkOutcome × LinkStore) :=
  match s.restoreScript link.name link.hash link.record link.ttl with
  | (.skippedTombstoned, s') => .ok (.skippedTombstoned, s')
  | (.hashConflict, _) => .error (.refused (.error .hashConflict))
  | (.updated, s') => .ok (.updated, s')
  | (.created, s') => .ok (.created, s')

/-- `restore_trigger_link` -/
def restoreTriggerLink (s : LinkStore) (name hash record : Value) :
    Except LinkFailure (LinkOutcome × LinkStore) :=
  if backend = .inMemory then .error (.refused .notSupported)
  else
    match name, hash with
    | .str name, .str hash =>
      match checkRestore name hash (TriggerRecord.ofValue P record) clock with
      | .error e => .error (.refused (.error e))
      | .ok none => .ok (.skippedExpired, s)
      | .ok (some link) =>
        if s.tombs hash then .ok (.skippedTombstoned, s)
        else
          match assertUsable link.record.executionKey link.record.executionKeyFingerprint with
          | .refused => .error (.refused (.error .executionKey))
          | .raised => .error .raised
          | .usable => s.restored link
    | .str _, _ => .error (.refused .hashType)
    | _, _ => .error (.refused .nameType)

/-- `restore_tombstone`, with the store that it leaves also where it raises. -/
def restoreTombstone (s : LinkStore) (hash : Value) : Except LinkFailure Unit × LinkStore :=
  if backend = .inMemory then (.error (.refused .notSupported), s)
  else
    match hash with
    | .str hash =>
      if hashValid hash then
        match s.tombstoneScript hash with
        | (some _, s') => (.ok (), s')
        | (none, s') => (.error .raised, s')
      else (.error (.refused (.error .tokenHash)), s)
    | _ => (.error (.refused .hashType), s)

end Calls

/-! ## What the calls do -/

theorem checkRestore_spec {name hash : Text} {body : Option TriggerRecord} {clock : ℤ}
    {link : Restored} (h : checkRestore name hash body clock = .ok (some link)) :
    link.name = name ∧ link.hash = hash ∧ body = some link.record ∧ link.record.valid = true := by
  unfold checkRestore at h
  split_ifs at h
  cases body with
  | none => cases h
  | some record =>
    simp only at h
    split_ifs at h with hvalid hname
    split at h
    · cases h
    · next ttl _ =>
      obtain ⟨ttl, rfl, rfl⟩ := Option.map_eq_some_iff.mp (Except.ok.inj h)
      exact ⟨rfl, rfl, rfl, hvalid⟩

namespace LinkStore

variable {s s' : LinkStore} {name hash hash' : Text} {record : TriggerRecord} {ttl : ℕ}

/-- A record that is there after a restore was there before, or is the one restored. -/
theorem records_restoreScript {kept : Kept TriggerRecord}
    (h : (s.restoreScript name hash record ttl).2.records hash' = some kept) :
    s.records hash' = some kept ∨
      hash' = hash ∧ kept.value = record ∧ s.tombs hash = false := by
  have hpair {t : LinkStore} (ht : ∀ kept, t.records hash' = some kept →
      s.records hash' = some kept) (htomb : ¬s.tombs hash = true)
      (h : (t.writePair name hash record ttl).records hash' = some kept) :
      s.records hash' = some kept ∨ hash' = hash ∧ kept.value = record ∧ s.tombs hash = false := by
    by_cases heq : hash' = hash
    · subst heq
      simp only [writePair, Function.update_self, Option.some.injEq] at h
      exact .inr ⟨rfl, by rw [← h], Bool.eq_false_iff.mpr htomb⟩
    · simp only [writePair, Function.update_of_ne heq] at h
      exact .inl (ht kept h)
  have hdel {old : Text} (kept : Kept TriggerRecord)
      (h : (s.delRecord old).records hash' = some kept) : s.records hash' = some kept := by
    by_cases heq : hash' = old
    · subst heq
      simp only [delRecord, Function.update_self, reduceCtorEq] at h
    · simpa only [delRecord, Function.update_of_ne heq] using h
  unfold restoreScript at h
  split at h
  · exact .inl h
  · next htomb =>
    split at h
    · split_ifs at h
      · exact hpair (fun _ => id) htomb h
      · exact .inl h
      · exact hpair hdel htomb h
    · split_ifs at h
      · exact .inl h
      · exact hpair (fun _ => id) htomb h

/-- After the import of a tombstone its hash has no record. -/
theorem buried_tombstoneScript (s : LinkStore) (hash : Text) :
    (s.tombstoneScript hash).2.tombs hash = true ∧
      (s.tombstoneScript hash).2.records hash = none := by
  refine ⟨?_, ?_⟩
  · rw [tombs_tombstoneScript]
    exact Function.update_self ..
  · unfold tombstoneScript
    split
    · next hnone => exact hnone
    · have hkilled : ((s.setTomb hash).delRecord hash).records hash = none :=
        Function.update_self ..
      split_ifs
      · split
        · exact hkilled
        · split_ifs
          · exact hkilled
          · exact hkilled
      · exact hkilled

/-- The import of a tombstone leaves the records of other hashes. -/
theorem records_tombstoneScript (hne : hash' ≠ hash) :
    (s.tombstoneScript hash).2.records hash' = s.records hash' := by
  have hkilled : ((s.setTomb hash).delRecord hash).records hash' = s.records hash' :=
    Function.update_of_ne hne ..
  unfold tombstoneScript
  split
  · rfl
  · split_ifs
    · split
      · exact hkilled
      · split_ifs
        · exact hkilled
        · exact hkilled
    · exact hkilled

/-- The script raises only on a record that does not decode. -/
theorem exists_of_tombstoneScript_none (h : (s.tombstoneScript hash).1 = none) :
    ∃ kept, s.records hash = some kept ∧ kept.value.decodes = false := by
  unfold tombstoneScript at h
  split at h
  · cases h
  · next kept hkept =>
    split_ifs at h with hdecodes
    · split at h
      · cases h
      · cases h
    · exact ⟨kept, hkept, Bool.eq_false_iff.mpr hdecodes⟩

end LinkStore

section Calls

variable {P : Parsing} {backend : Backend} {assertUsable : Text → Text → KeyVerdict} {clock : ℤ}
  {s s' : LinkStore} {name hash record : Value} {outcome : LinkOutcome}

/-- A call that returns has restored the link, or found it expired or revoked. -/
theorem restoreTriggerLink_ok
    (h : restoreTriggerLink P backend assertUsable clock s name hash record = .ok (outcome, s')) :
    ∃ n t link?, backend = .redis ∧ name = .str n ∧ hash = .str t ∧
      checkRestore n t (TriggerRecord.ofValue P record) clock = .ok link? ∧
      ((outcome = .skippedExpired ∨ outcome = .skippedTombstoned) ∧ s' = s ∨
        ∃ link, link? = some link ∧ s.tombs t = false ∧
          (outcome = .updated ∨ outcome = .created) ∧
          s' = (s.restoreScript n t link.record link.ttl).2) := by
  unfold restoreTriggerLink at h
  split_ifs at h with hbackend
  have hredis : backend = .redis := by
    cases backend with
    | redis => rfl
    | inMemory => exact absurd rfl hbackend
  split at h
  · next n t =>
    refine ⟨n, t, ?_⟩
    split at h
    · cases h
    · next hexpired =>
      obtain ⟨rfl, rfl⟩ := Prod.mk.inj (Except.ok.inj h)
      exact ⟨none, hredis, rfl, rfl, hexpired, .inl ⟨.inl rfl, rfl⟩⟩
    · next link hlink =>
      refine ⟨some link, hredis, rfl, rfl, hlink, ?_⟩
      split_ifs at h with htomb
      · obtain ⟨rfl, rfl⟩ := Prod.mk.inj (Except.ok.inj h)
        exact .inl ⟨.inr rfl, rfl⟩
      · obtain ⟨hn, ht, -, -⟩ := checkRestore_spec hlink
        split at h
        · cases h
        · cases h
        · unfold LinkStore.restored at h
          rw [hn, ht] at h
          have htomb' : s.tombs t = false := Bool.eq_false_iff.mpr htomb
          split at h
          · next s'' hscript =>
            have hnot := congrArg Prod.fst hscript
            unfold LinkStore.restoreScript at hnot
            rw [if_neg htomb] at hnot
            split at hnot
            · split_ifs at hnot
            · split_ifs at hnot
          · cases h
          · next s'' hscript =>
            obtain ⟨rfl, rfl⟩ := Prod.mk.inj (Except.ok.inj h)
            exact .inr ⟨link, rfl, htomb', .inl rfl, by rw [hscript]⟩
          · next s'' hscript =>
            obtain ⟨rfl, rfl⟩ := Prod.mk.inj (Except.ok.inj h)
            exact .inr ⟨link, rfl, htomb', .inr rfl, by rw [hscript]⟩
  · cases h
  · cases h

/-- What the call raises is a refusal, or a fault of the read of its key. -/
theorem restoreTriggerLink_raised
    (h : restoreTriggerLink P backend assertUsable clock s name hash record = .error .raised) :
    ∃ key fingerprint, assertUsable key fingerprint = .raised := by
  unfold restoreTriggerLink at h
  split_ifs at h
  · cases h
  split at h
  · split at h
    · cases h
    · cases h
    · next link _ =>
      split_ifs at h
      split at h
      · cases h
      · next hraised => exact ⟨_, _, hraised⟩
      · unfold LinkStore.restored at h
        split at h <;> cases h
  · cases h
  · cases h

end Calls

end TaiSkeleton.Hooks
