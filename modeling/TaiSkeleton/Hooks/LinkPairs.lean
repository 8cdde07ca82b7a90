import TaiSkeleton.Hooks.TriggerLinks

/-!
# The pairs of the trigger links

A name key and the record of its hash are written, re-timed, deleted and expire together. Only a
tombstone import can part them, where `cjson.decode` raises on the record that it has deleted.
-/

namespace TaiSkeleton.Hooks

open Lib

/-- Name keys and records point at each other and expire together; what has a tombstone has no
record. -/
structure LinkStore.Paired (s : LinkStore) : Prop where
  indexed : ∀ name key, s.names name = some key →
    ∃ record, s.records key.value = some ⟨record, key.deadline⟩ ∧ record.name = name
  named : ∀ hash kept, s.records hash = some kept →
    s.names kept.value.name = some ⟨hash, kept.deadline⟩
  buried : ∀ hash, s.tombs hash = true → s.records hash = none

/-- Each name key has a record that carries its name, and each record has one name key. -/
def LinkStore.Bijective (s : LinkStore) : Prop :=
  (∀ name key, s.names name = some key →
    ∃ kept, s.records key.value = some kept ∧ kept.value.name = name) ∧
  ∀ hash kept, s.records hash = some kept →
    ∃! name, (s.names name).map Kept.value = some hash

namespace LinkStore.Paired

variable {s : LinkStore} {name hash : Text} {record : TriggerRecord} {ttl : ℕ}

theorem bijective (h : s.Paired) : s.Bijective := by
  refine ⟨fun name key hkey => ?_, fun hash kept hkept => ?_⟩
  · obtain ⟨record, hrecord, hname⟩ := h.indexed name key hkey
    exact ⟨_, hrecord, hname⟩
  · refine ⟨kept.value.name, ?_, fun name hname => ?_⟩
    · simp only [h.named hash kept hkept, Option.map_some]
    · obtain ⟨key, hkey, rfl⟩ := Option.map_eq_some_iff.mp hname
      obtain ⟨record, hrecord, rfl⟩ := h.indexed name key hkey
      rw [hkept] at hrecord
      obtain rfl := Option.some.inj hrecord
      rfl

theorem tick (h : s.Paired) (now : ℤ) : (s.tick now).Paired where
  indexed name key hkey := by
    obtain ⟨hkey, hlive⟩ := Option.filter_eq_some_iff.mp hkey
    obtain ⟨record, hrecord, hname⟩ := h.indexed name key hkey
    exact ⟨record, Option.filter_eq_some_iff.mpr ⟨hrecord, hlive⟩, hname⟩
  named hash kept hkept := by
    obtain ⟨hkept, hlive⟩ := Option.filter_eq_some_iff.mp hkept
    exact Option.filter_eq_some_iff.mpr ⟨h.named hash kept hkept, hlive⟩
  buried hash htomb := by
    show (s.records hash).filter _ = none
    rw [h.buried hash htomb]
    rfl

/-- A name and its record go together. -/
theorem unlink (h : s.Paired) {key : Kept Text} (hkey : s.names name = some key) :
    ((s.delRecord key.value).delName name).Paired where
  indexed name' key' hkey' := by
    by_cases hname : name' = name
    · subst hname
      simp [delName] at hkey'
    · have hold : s.names name' = some key' := by
        simpa only [delName, delRecord, Function.update_of_ne hname] using hkey'
      obtain ⟨record, hrecord, rfl⟩ := h.indexed name' key' hold
      obtain ⟨record', hrecord', rfl⟩ := h.indexed name key hkey
      have hhash : key'.value ≠ key.value := by
        intro heq
        rw [heq, hrecord', Option.some.injEq, Kept.mk.injEq] at hrecord
        exact hname (congrArg TriggerRecord.name hrecord.1.symm)
      exact ⟨record, by simpa only [delName, delRecord, Function.update_of_ne hhash], rfl⟩
  named hash kept hkept := by
    by_cases hhash : hash = key.value
    · subst hhash
      simp [delName, delRecord] at hkept
    · have hold : s.records hash = some kept := by
        simpa only [delName, delRecord, Function.update_of_ne hhash] using hkept
      have hname : kept.value.name ≠ name := by
        rintro rfl
        have hsame := (h.named hash kept hold).symm.trans hkey
        exact hhash (congrArg Kept.value (Option.some.inj hsame))
      simpa only [delName, delRecord, Function.update_of_ne hname] using h.named hash kept hold
  buried hash htomb := by
    by_cases hhash : hash = key.value
    · subst hhash
      simp [delName, delRecord]
    · simpa only [delName, delRecord, Function.update_of_ne hhash] using h.buried hash htomb

/-- A hash without a record gets a tombstone. -/
theorem bury (h : s.Paired) (hhash : s.records hash = none) : (s.setTomb hash).Paired where
  indexed := h.indexed
  named := h.named
  buried hash' htomb := by
    by_cases heq : hash' = hash
    · subst heq
      exact hhash
    · simp only [setTomb, Function.update_of_ne heq] at htomb
      exact h.buried hash' htomb

/-- Both keys are written where neither belongs to another pair. -/
theorem writePair (h : s.Paired) (hrecord : record.name = name) (htomb : s.tombs hash = false)
    (hname : ∀ key, s.names name = some key → key.value = hash)
    (hhash : ∀ kept, s.records hash = some kept → kept.value.name = name) :
    (s.writePair name hash record ttl).Paired where
  indexed name' key hkey := by
    by_cases heq : name' = name
    · subst heq
      simp only [LinkStore.writePair, Function.update_self, Option.some.injEq] at hkey
      subst hkey
      exact ⟨record, by simp only [LinkStore.writePair, Function.update_self], hrecord⟩
    · simp only [LinkStore.writePair, Function.update_of_ne heq] at hkey
      obtain ⟨record', hrecord', rfl⟩ := h.indexed name' key hkey
      have hne : key.value ≠ hash := by
        rintro rfl
        exact heq (hhash _ hrecord')
      exact ⟨record', by simpa only [LinkStore.writePair, Function.update_of_ne hne], rfl⟩
  named hash' kept hkept := by
    by_cases heq : hash' = hash
    · subst heq
      simp only [LinkStore.writePair, Function.update_self, Option.some.injEq] at hkept
      subst hkept
      simp only [LinkStore.writePair, hrecord, Function.update_self]
    · simp only [LinkStore.writePair, Function.update_of_ne heq] at hkept
      have hold := h.named hash' kept hkept
      have hne : kept.value.name ≠ name := by
        rintro rfl
        exact heq (hname _ hold)
      simpa only [LinkStore.writePair, Function.update_of_ne hne]
  buried hash' htomb' := by
    have hne : hash' ≠ hash := by
      rintro rfl
      rw [show s.tombs hash' = true from htomb'] at htomb
      cases htomb
    simpa only [LinkStore.writePair, Function.update_of_ne hne] using h.buried hash' htomb'

/-! ## The scripts -/

theorem createScript (h : s.Paired) {s' : LinkStore} (hrecord : record.name = name)
    (hfresh : s.records hash = none ∧ s.tombs hash = false)
    (hs' : s.createScript name hash record ttl = some s') : s'.Paired := by
  unfold LinkStore.createScript at hs'
  split_ifs at hs' with htaken
  obtain rfl := Option.some.inj hs'
  refine h.writePair hrecord hfresh.2 (fun key hkey => ?_) fun kept hkept => ?_
  · exact absurd (by rw [hkey]; rfl) htaken
  · rw [hfresh.1] at hkept
    cases hkept

theorem revokeScript (h : s.Paired) {s' : LinkStore}
    (hs' : s.revokeScript name = some (hash, s')) : s'.Paired ∧ s'.tombs hash = true := by
  obtain ⟨key, hkey, heq⟩ := Option.map_eq_some_iff.mp hs'
  obtain ⟨rfl, rfl⟩ := Prod.mk.inj heq
  refine ⟨(h.unlink hkey).bury ?_, ?_⟩
  · simp [delName, delRecord]
  · simp [setTomb]

/-- The displaced record goes with its name before the pair is written. -/
theorem writePair_delRecord {key : Kept Text} :
    (s.delRecord key.value).writePair name hash record ttl =
      ((s.delRecord key.value).delName name).writePair name hash record ttl := by
  simp [LinkStore.writePair, delRecord, delName]

theorem restoreScript (h : s.Paired) (hrecord : record.name = name) :
    (s.restoreScript name hash record ttl).2.Paired := by
  cases htomb : s.tombs hash with
  | true => simpa only [LinkStore.restoreScript, htomb, if_true] using h
  | false =>
    cases hname : s.names name with
    | none =>
      simp only [LinkStore.restoreScript, htomb, hname, Bool.false_eq_true, if_false]
      split_ifs with hlive
      · exact h
      · have hnone : s.records hash = none := by simpa using hlive
        refine h.writePair hrecord htomb (fun key hkey => ?_) fun kept hkept => ?_
        · rw [hname] at hkey
          cases hkey
        · rw [hnone] at hkept
          cases hkept
    | some current =>
      simp only [LinkStore.restoreScript, htomb, hname, Bool.false_eq_true, if_false]
      split_ifs with hsame hlive
      · refine h.writePair hrecord htomb (fun key hkey => ?_) fun kept hkept => ?_
        · rw [hname] at hkey
          obtain rfl := Option.some.inj hkey
          exact hsame
        · obtain ⟨record', hrecord', rfl⟩ := h.indexed name current hname
          rw [hsame, hkept] at hrecord'
          obtain rfl := Option.some.inj hrecord'
          rfl
      · exact h
      · have hnone : s.records hash = none := by simpa using hlive
        rw [writePair_delRecord]
        refine (h.unlink hname).writePair hrecord htomb (fun key hkey => ?_) fun kept hkept => ?_
        · simp [delName] at hkey
        · simp [delName, delRecord, Function.update_of_ne (Ne.symm hsame), hnone] at hkept

theorem tombstoneScript (h : s.Paired)
    (hdecodes : ∀ kept, s.records hash = some kept → kept.value.decodes = true) :
    (s.tombstoneScript hash).2.Paired := by
  unfold LinkStore.tombstoneScript
  cases hrecord : s.records hash with
  | none => exact h.bury hrecord
  | some kept =>
    have hname := h.named hash kept hrecord
    have hunlinked := h.unlink hname
    simp only [hdecodes kept hrecord, hname, if_true]
    have hgone : ((s.delRecord hash).delName kept.value.name).records hash = none := by
      simp [delName, delRecord]
    exact hunlinked.bury hgone

end LinkStore.Paired

/-! ## The runs -/

variable {hashApiKey : Text → Text}

/-- A restore under way has the name of its record. -/
def LinkCall.Sound : LinkCall → Prop
  | .restoring link => link.record.name = link.name
  | _ => True

structure LinkState.Sound (s : LinkState) : Prop where
  paired : s.store.Paired
  calls : ∀ i call, s.calls i = some call → call.Sound

/-- A tombstone is imported over no record on which `cjson.decode` raises. -/
def Decodes (s : LinkState) : LinkAct → Prop
  | .take i _ => ∀ hash, s.calls i = some (.asked (.tombstone hash)) → hashValid hash = true →
    ∀ kept, s.store.records hash = some kept → kept.value.decodes = true
  | _ => True

theorem checkRestore_name {name hash : Text} {body : Option TriggerRecord} {clock : ℤ}
    {link : Restored} (h : checkRestore name hash body clock = .ok (some link)) :
    link.record.name = link.name := by
  unfold checkRestore at h
  split_ifs at h
  split at h
  · cases h
  · split_ifs at h with _ hname
    split at h
    · cases h
    · obtain ⟨ttl, -, rfl⟩ := Option.map_eq_some_iff.mp (Except.ok.inj h)
      exact hname

namespace LinkState.Sound

variable {s s' : LinkState} {i : ℕ} {found : Found}

theorem goOn (h : s.Sound) {store : LinkStore} {call : Option LinkCall} (hstore : store.Paired)
    (hcall : ∀ c ∈ call, c.Sound) : (s.goOn i store call).Sound where
  paired := hstore
  calls j c hc := by
    by_cases hj : j = i
    · subst hj
      simp only [LinkState.goOn, Function.update_self] at hc
      exact hcall c hc
    · simp only [LinkState.goOn, Function.update_of_ne hj] at hc
      exact h.calls j c hc

theorem stop (h : s.Sound) : (s.goOn i s.store none).Sound := h.goOn h.paired nofun

/-- A call that goes on without a restore. -/
theorem pass (h : s.Sound) {call : LinkCall} (hcall : call.Sound) :
    (s.goOn i s.store (some call)).Sound := by
  refine h.goOn h.paired fun c hc => ?_
  obtain rfl := Option.some.inj hc
  exact hcall

theorem begin (h : s.Sound) {request : LinkRequest} (hcall : s.calls i = some (.asked request))
    (hdecodes : Decodes s (.take i found)) : (s.begin hashApiKey i found request).Sound := by
  cases request with
  | create params =>
    simp only [LinkState.begin]
    split
    · exact h.stop
    · exact h.pass trivial
  | revoke name =>
    simp only [LinkState.begin]
    split
    · exact h.stop
    · next hash store hrevoked => exact h.goOn (h.paired.revokeScript hrevoked).1 nofun
  | restore name hash body =>
    simp only [LinkState.begin]
    split
    · exact h.stop
    · exact h.stop
    · next link hlink =>
      split_ifs
      · exact h.stop
      · exact h.pass (checkRestore_name hlink)
  | tombstone hash =>
    simp only [LinkState.begin]
    split_ifs with hvalid
    · exact h.goOn (h.paired.tombstoneScript (hdecodes hash hcall hvalid)) nofun
    · exact h.stop
  | resolve token =>
    simp only [LinkState.begin]
    split
    · exact h.stop
    · exact h.pass trivial

theorem attempt (h : s.Sound) {draft : Draft} {attempts : ℕ}
    (hfresh : s.store.records (hashApiKey found.token) = none ∧
      s.store.tombs (hashApiKey found.token) = false) :
    (s.attempt hashApiKey i found draft attempts).Sound := by
  cases attempts with
  | zero => exact h.stop
  | succ attempts =>
    simp only [LinkState.attempt]
    split
    · next store hcreated =>
      have hname : (draft.record (draft.params.name.getD found.name)).name =
          draft.params.name.getD found.name := rfl
      exact h.goOn (h.paired.createScript hname hfresh hcreated) (by rintro _ ⟨⟩)
    · split_ifs
      · exact h.stop
      · exact h.pass trivial

theorem resume (h : s.Sound) {call : LinkCall} (hcall : s.calls i = some call)
    (hfresh : s.Fresh hashApiKey (.take i found)) (hdecodes : Decodes s (.take i found)) :
    (s.resume hashApiKey i found call).Sound := by
  cases call with
  | asked request => exact h.begin hcall hdecodes
  | creating draft attempts => exact h.attempt (hfresh draft attempts hcall)
  | restoring link =>
    simp only [LinkState.resume]
    split_ifs
    · exact h.goOn (h.paired.restoreScript (h.calls i _ hcall)) nofun
    · exact h.stop
  | resolving record => exact h.stop

theorem step (h : s.Sound) {a : LinkAct} (hdecodes : Decodes s a)
    (hstep : (linkSystem hashApiKey).step s a s') : s'.Sound := by
  obtain ⟨hfresh, hnext⟩ := hstep
  cases a with
  | start i request =>
    simp only [LinkState.next] at hnext
    split at hnext
    · obtain rfl := Option.some.inj hnext
      exact h.pass trivial
    · cases hnext
  | take i found =>
    obtain ⟨call, hcall, rfl⟩ := Option.map_eq_some_iff.mp hnext
    exact h.resume hcall hfresh hdecodes
  | fail i =>
    obtain rfl := Option.some.inj hnext
    exact h.stop
  | tick now =>
    obtain rfl := Option.some.inj hnext
    exact ⟨h.paired.tick now, h.calls⟩

theorem of_reachable (h : ((linkSystem hashApiKey).when Decodes).Reachable s) : s.Sound := by
  refine h.invariant (p := LinkState.Sound) ?_ ?_
  · rintro s ⟨hidle, hnames, hrecords, htombs⟩
    refine ⟨⟨fun name key hkey => ?_, fun hash kept hkept => ?_, fun hash _ => hrecords hash⟩,
      fun i call hcall => ?_⟩
    · rw [hnames name] at hkey
      cases hkey
    · rw [hrecords hash] at hkept
      cases hkept
    · rw [hidle i] at hcall
      cases hcall
  · rintro s a s' hs ⟨hdecodes, hstep⟩
    exact hs.step hdecodes hstep

end LinkState.Sound

/-! ## Tombstones -/

namespace LinkStore

variable {s : LinkStore} {name hash hash' : Text} {record : TriggerRecord} {ttl : ℕ}

theorem tombs_setTomb (h : s.tombs hash' = true) : (s.setTomb hash).tombs hash' = true := by
  by_cases heq : hash' = hash
  · subst heq
    exact Function.update_self ..
  · exact (Function.update_of_ne heq ..).trans h

theorem tombs_restoreScript : (s.restoreScript name hash record ttl).2.tombs = s.tombs := by
  unfold restoreScript
  split
  · rfl
  · split
    · split_ifs
      · rfl
      · rfl
      · rfl
    · split_ifs
      · rfl
      · rfl

theorem tombs_tombstoneScript :
    (s.tombstoneScript hash).2.tombs = (s.setTomb hash).tombs := by
  unfold tombstoneScript
  split
  · rfl
  · dsimp only
    split_ifs
    · split
      · rfl
      · split_ifs
        · rfl
        · rfl
    · rfl

end LinkStore

namespace LinkState

variable {s s' : LinkState} {hash : Text}

/-- No step takes a tombstone away. -/
theorem tombs_step {a : LinkAct} (hstep : (linkSystem hashApiKey).step s a s')
    (h : s.store.tombs hash = true) : s'.store.tombs hash = true := by
  obtain ⟨-, hnext⟩ := hstep
  cases a with
  | start i request =>
    simp only [next] at hnext
    split at hnext
    · obtain rfl := Option.some.inj hnext
      exact h
    · cases hnext
  | fail i =>
    obtain rfl := Option.some.inj hnext
    exact h
  | tick now =>
    obtain rfl := Option.some.inj hnext
    exact h
  | take i found =>
    obtain ⟨call, -, rfl⟩ := Option.map_eq_some_iff.mp hnext
    cases call with
    | asked request =>
      cases request with
      | create params =>
        simp only [resume, begin]
        split <;> exact h
      | revoke name =>
        simp only [resume, begin]
        split
        · exact h
        · next hrevoked =>
          obtain ⟨key, -, heq⟩ := Option.map_eq_some_iff.mp hrevoked
          obtain ⟨rfl, rfl⟩ := Prod.mk.inj heq
          exact LinkStore.tombs_setTomb h
      | restore name hash' body =>
        simp only [resume, begin]
        split
        · exact h
        · exact h
        · split_ifs <;> exact h
      | tombstone hash' =>
        simp only [resume, begin]
        split_ifs
        · exact (congrFun LinkStore.tombs_tombstoneScript hash).trans (LinkStore.tombs_setTomb h)
        · exact h
      | resolve token =>
        simp only [resume, begin]
        split <;> exact h
    | creating draft attempts =>
      cases attempts with
      | zero => exact h
      | succ attempts =>
        simp only [resume, attempt]
        split
        · next hcreated =>
          unfold LinkStore.createScript at hcreated
          split_ifs at hcreated
          obtain rfl := Option.some.inj hcreated
          exact h
        · split_ifs <;> exact h
    | restoring link =>
      simp only [resume]
      split_ifs
      · exact (congrFun LinkStore.tombs_restoreScript hash).trans h
      · exact h
    | resolving record => exact h

/-- What a call has killed has a tombstone. -/
theorem tombs_of_killed {a : LinkAct} (hkilled : s.killed a = some hash)
    (hstep : (linkSystem hashApiKey).step s a s') : s'.store.tombs hash = true := by
  obtain ⟨-, hnext⟩ := hstep
  cases a with
  | start i request => cases hkilled
  | fail i => cases hkilled
  | tick now => cases hkilled
  | take i found =>
    obtain ⟨call, hcall, rfl⟩ := Option.map_eq_some_iff.mp hnext
    simp only [killed, hcall] at hkilled
    split at hkilled
    · next name heq =>
      obtain ⟨⟨hash', store⟩, hrevoked, rfl⟩ := Option.map_eq_some_iff.mp hkilled
      obtain rfl := Option.some.inj heq
      obtain ⟨key, -, hpair⟩ := Option.map_eq_some_iff.mp hrevoked
      obtain ⟨rfl, rfl⟩ := Prod.mk.inj hpair
      simp only [resume, begin, hrevoked]
      exact Function.update_self ..
    · next hash' heq =>
      obtain rfl := Option.some.inj heq
      split_ifs at hkilled with hreturns
      obtain rfl := Option.some.inj hkilled
      have hvalid : hashValid hash' = true := (Bool.and_eq_true_iff.mp hreturns).1
      simp only [resume, begin, hvalid, if_true]
      refine (congrFun LinkStore.tombs_tombstoneScript hash').trans ?_
      exact Function.update_self ..
    · cases hkilled

end LinkState

theorem resolve_of_tomb {s : LinkStore} {token : Text} (h : s.tombs (hashApiKey token) = true)
    (verifierBound : Text → Bool) :
    resolveTriggerToken hashApiKey s verifierBound token = .error .unknownOrExpired := by
  simp [resolveTriggerToken, LinkStore.lookup, h]

/-- In the runs that import tombstones over records that decode, name keys and records are pairs
and no hash with a tombstone has a record; what a call has killed never resolves again. -/
theorem links_paired {s : LinkState}
    (h : ((linkSystem hashApiKey).when Decodes).Reachable s) :
    s.store.Bijective ∧ (∀ hash, s.store.tombs hash = true → s.store.records hash = none) ∧
    ∀ a s' s'' hash, s.killed a = some hash → (linkSystem hashApiKey).step s a s' →
      (linkSystem hashApiKey).Run s' s'' → ∀ token, hashApiKey token = hash →
        ∀ verifierBound, resolveTriggerToken hashApiKey s''.store verifierBound token =
          .error .unknownOrExpired := by
  have hpaired := (LinkState.Sound.of_reachable h).paired
  refine ⟨hpaired.bijective, hpaired.buried, ?_⟩
  rintro a s' s'' hash hkilled hstep hrun token rfl verifierBound
  have htomb := LinkState.tombs_of_killed hkilled hstep
  have hkept : s''.store.tombs (hashApiKey token) = true :=
    hrun.invariant (p := fun s => s.store.tombs (hashApiKey token) = true)
      (fun _ _ _ hs hstep => LinkState.tombs_step hstep hs) htomb
  exact resolve_of_tomb hkept verifierBound

/-- The import of a tombstone over a record that does not decode leaves its name key behind. -/
theorem orphan_of_undecodable {s s' : LinkState} {a : LinkAct} (h : s.Sound) (ha : ¬Decodes s a)
    (hstep : (linkSystem hashApiKey).step s a s') : ¬s'.store.Bijective := by
  obtain ⟨-, hnext⟩ := hstep
  cases a with
  | start i request => exact absurd trivial ha
  | fail i => exact absurd trivial ha
  | tick now => exact absurd trivial ha
  | take i found =>
    unfold Decodes at ha
    push Not at ha
    obtain ⟨hash, hcall, hvalid, kept, hkept, hdecodes⟩ := ha
    obtain ⟨call, hcall', rfl⟩ := Option.map_eq_some_iff.mp hnext
    obtain rfl := Option.some.inj (hcall.symm.trans hcall')
    have hname := h.paired.named hash kept hkept
    have hfalse : kept.value.decodes = false := by simpa using hdecodes
    rintro ⟨hindexed, -⟩
    simp only [LinkState.resume, LinkState.begin, hvalid, if_true, LinkState.goOn,
      LinkStore.tombstoneScript, hkept, hfalse, Bool.false_eq_true, if_false] at hindexed
    obtain ⟨kept', hkept', -⟩ := hindexed kept.value.name _ hname
    simp [LinkStore.delRecord] at hkept'

/-! ## Two runs -/

/-- A token, and its SHA-256. -/
def sampleToken : Text := [116, 114, 103, 45] ++ List.replicate 43 65

def sampleHash : Text :=
  [53, 57, 100, 50, 52, 97, 99, 102, 57, 101, 101, 54, 48, 97, 52, 101, 55, 55, 55, 102, 99,
    51, 100, 97, 54, 101, 99, 100, 51, 50, 48, 97, 50, 51, 97, 53, 56, 101, 57, 52, 51, 50,
    55, 97, 98, 50, 53, 97, 48, 100, 55, 52, 49, 101, 52, 102, 51, 50, 101, 98, 49, 98, 49,
    100]

def sampleHashApiKey (token : Text) : Text := if token = sampleToken then sampleHash else []

/-- The parameters of a link whose one argument is a lone surrogate, or is not. -/
def sampleParams (argument : ℕ) : CreateParams where
  topic := [116]
  name := some [110]
  ttlSeconds := none
  toolKwargs := some [([120], .str [argument])]
  executionKey := [107]
  executionKeyFingerprint := [102]
  requireApiKey := false
  createdBy := none

def emptyLinks : LinkState :=
  ⟨⟨0, fun _ => none, fun _ => none, fun _ => false⟩, fun _ => none⟩

theorem emptyLinks_init : (linkSystem sampleHashApiKey).init emptyLinks :=
  ⟨fun _ => rfl, fun _ => rfl, fun _ => rfl, fun _ => rfl⟩

/-- A link is created and then revoked. -/
theorem revoked_pair : ∃ s s' : LinkState, s.store.Bijective ∧
    (s.store.names [110]).map Kept.value = some sampleHash ∧
    (linkSystem sampleHashApiKey).step s (.take 1 {}) s' ∧
    resolveTriggerToken sampleHashApiKey s'.store (fun _ => false) sampleToken =
      .error .unknownOrExpired := by
  have hempty : ((linkSystem sampleHashApiKey).when Decodes).Reachable emptyLinks :=
    .of_init emptyLinks_init
  have hasked := hempty.take (.start 0 (.create (sampleParams 65))) ⟨trivial, trivial, rfl⟩
  have hchecked := hasked.take (.take 0 {}) ⟨nofun, nofun, rfl⟩
  have hcreated := hchecked.take (.take 0 { token := sampleToken })
    ⟨nofun, fun _ _ _ => ⟨rfl, rfl⟩, rfl⟩
  have hrevoking := hcreated.take (.start 1 (.revoke [110])) ⟨trivial, trivial, rfl⟩
  obtain ⟨hbijective, -, hdead⟩ := links_paired hrevoking
  refine ⟨_, _, hbijective, rfl, ⟨nofun, rfl⟩, ?_⟩
  exact hdead (.take 1 {}) _ _ sampleHash rfl ⟨nofun, rfl⟩ .refl sampleToken rfl _

/-- The tombstone of a link with a lone surrogate is imported. -/
theorem orphan_of_surrogate :
    ∃ s, (linkSystem sampleHashApiKey).Reachable s ∧ ¬s.store.Bijective := by
  have hempty : (linkSystem sampleHashApiKey).Reachable emptyLinks := .of_init emptyLinks_init
  have hasked := hempty.take (.start 0 (.create (sampleParams 0xd800))) ⟨trivial, rfl⟩
  have hchecked := hasked.take (.take 0 {}) ⟨nofun, rfl⟩
  have hcreated := hchecked.take (.take 0 { token := sampleToken })
    ⟨fun _ _ _ => ⟨rfl, rfl⟩, rfl⟩
  have himporting := hcreated.take (.start 1 (.tombstone sampleHash)) ⟨trivial, rfl⟩
  have himported := himporting.take (.take 1 {}) ⟨nofun, rfl⟩
  refine ⟨_, himported, ?_⟩
  rintro ⟨hindexed, -⟩
  obtain ⟨kept, hkept, -⟩ := hindexed [110] ⟨sampleHash, none⟩ rfl
  cases hkept

end TaiSkeleton.Hooks
