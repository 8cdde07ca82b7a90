import TaiSkeleton.Connectors.ConsistentWorlds

/-!
# The attempts of the connection service

For each call, when an attempt returns and what it returns with, and what an attempt that fails
leaves behind.
-/

namespace TaiSkeleton.Connectors.Service

open Lib

/-! ## Steps -/

section

variable {reply : Reply} {write : World → World} {w w' : World} {record : ConnectionRecord}
  {mutator : List ManifestEntry → Option (List ManifestEntry)}

theorem perform_eq_ok :
    perform reply write w = .ok w' ↔ reply = .lands ∧ write w = w' := by
  cases reply <;> simp [perform]

theorem perform_eq_error : perform reply write w = .error w' ↔
    reply = .fails ∧ w = w' ∨ reply = .landsAndRaises ∧ write w = w' := by
  cases reply <;> simp [perform]

theorem persistNew_eq_ok : persistNew reply record w = .ok w' ↔
    (∀ row ∈ w.rows, row.connectionId ≠ record.connectionId ∧
      ¬(row.providerId = record.providerId ∧ row.aliasName = record.aliasName)) ∧
    reply = .lands ∧ { w with rows := w.rows ++ [record] } = w' := by
  rw [persistNew]
  split_ifs with htaken
  · refine iff_of_false nofun fun hfree => ?_
    obtain ⟨row, hrow, htaken⟩ := htaken
    exact absurd htaken (not_or.mpr (hfree.1 row hrow))
  · simp only [not_exists, not_and, not_or] at htaken
    rw [perform_eq_ok]
    exact (and_iff_right fun row hrow => ⟨(htaken row hrow).1, fun hsame =>
      (htaken row hrow).2 hsame.1 hsame.2⟩).symm

theorem persistNew_eq_error (h : persistNew reply record w = .error w') :
    w = w' ∨ reply = .landsAndRaises := by
  rw [persistNew] at h
  split_ifs at h
  · exact .inl (Except.error.inj h)
  · obtain ⟨-, heq⟩ | ⟨hreply, -⟩ := perform_eq_error.mp h
    · exact .inl heq
    · exact .inr hreply

theorem applyChange_eq_ok : applyChange reply mutator w = .ok w' ↔
    ∃ manifest, mutator w.manifest = some manifest ∧ reply = .lands ∧
      { w with manifest } = w' := by
  rw [applyChange]
  cases mutator w.manifest with
  | none => simp
  | some manifest => simp [perform_eq_ok]

theorem applyChange_eq_error (h : applyChange reply mutator w = .error w') :
    w = w' ∧ (mutator w.manifest = none ∨ reply = .fails) ∨
    reply = .landsAndRaises ∧ ∃ manifest, mutator w.manifest = some manifest ∧
      { w with manifest } = w' := by
  rw [applyChange] at h
  split at h
  · next manifest hmanifest =>
    obtain ⟨hreply, heq⟩ | ⟨hreply, heq⟩ := perform_eq_error.mp h
    · exact .inl ⟨heq, .inr hreply⟩
    · exact .inr ⟨hreply, manifest, hmanifest, heq⟩
  · next hnone => exact .inl ⟨Except.error.inj h, .inl hnone⟩

variable {deployment : Deployment} {origin : String} {flow : OAuthFlowState} {chance : Chance}

theorem startFlow_eq_ok : startFlow deployment origin flow chance w = .ok w' ↔
    origin ∈ deployment.allowlist ∧ chance.puts = .lands ∧
      w.setFlow chance.flowId (some flow) = w' := by
  simp only [startFlow, bind_eq_ok, ensure_eq_ok, decide_eq_true_eq, perform_eq_ok, exists_and_left,
    exists_const]

theorem startFlow_eq_error (h : startFlow deployment origin flow chance w = .error w') :
    w = w' ∨ w.setFlow chance.flowId (some flow) = w' := by
  rw [startFlow, bind_eq_error] at h
  obtain h | ⟨_, -, h⟩ := h
  · exact .inl (ensure_eq_error.mp h).2
  · obtain ⟨-, heq⟩ | ⟨-, heq⟩ := perform_eq_error.mp h
    · exact .inl heq
    · exact .inr heq

/-! ## Starts -/

theorem connectNoAuth_eq_ok {descriptor : ProviderDescriptor} {aliasName : String}
    {subServices : List String} {configValues : List (String × String)} :
    connectNoAuth descriptor aliasName subServices configValues chance w = .ok w' ↔
      validateConfigValues descriptor configValues = true ∧ ∃ w₁,
        persistNew chance.persists
          { connectionId := chance.connectionId
            providerId := descriptor.id
            kind := .none
            aliasName := aliasName
            enabledSubServices := subServices } w = .ok w₁ ∧
        applyChange chance.applies
          (addManagedEntries descriptor subServices aliasName chance.connectionId) w₁ = .ok w' := by
  simp only [connectNoAuth, bind_eq_ok, ensure_eq_ok, exists_and_left, exists_const]

theorem consistent_of_connectNoAuth (h : w.Consistent) (hfresh : chance.Fresh w)
    {descriptor : ProviderDescriptor} {aliasName : String} {subServices : List String}
    {configValues : List (String × String)}
    (hok : connectNoAuth descriptor aliasName subServices configValues chance w = .ok w') :
    w'.Consistent := by
  obtain ⟨-, w₁, hpersist, happly⟩ := connectNoAuth_eq_ok.mp hok
  obtain ⟨-, -, rfl⟩ := persistNew_eq_ok.mp hpersist
  obtain ⟨manifest, hmanifest, -, rfl⟩ := applyChange_eq_ok.mp happly
  exact h.connect _ hfresh.1 hfresh.2 rfl hmanifest

/-- A first connect that settles leaves nothing behind where it fails. -/
theorem eq_of_connectNoAuth_error {descriptor : ProviderDescriptor} {aliasName : String}
    {subServices : List String} {configValues : List (String × String)}
    (hsettles : chance.Settles
      (addManagedEntries descriptor subServices aliasName chance.connectionId) w)
    (herror : connectNoAuth descriptor aliasName subServices configValues chance w = .error w') :
    w = w' := by
  rw [connectNoAuth, bind_eq_error] at herror
  obtain herror | ⟨_, -, herror⟩ := herror
  · exact (ensure_eq_error.mp herror).2
  · obtain hpersist | ⟨w₁, hpersist, happly⟩ := bind_eq_error.mp herror
    · exact (persistNew_eq_error hpersist).resolve_right hsettles.1
    · obtain ⟨-, hlands, rfl⟩ := persistNew_eq_ok.mp hpersist
      obtain ⟨hsome, happlies⟩ := hsettles.2 hlands
      obtain ⟨-, hnone | hfails⟩ | ⟨hraises, -⟩ := applyChange_eq_error happly
      · rw [Option.isSome_iff_ne_none] at hsome
        exact absurd hnone hsome
      · rw [happlies] at hfails
        cases hfails
      · rw [happlies] at hraises
        cases hraises

variable {providerId aliasName returnUrl redirectUri : String} {subServices : List String}
  {configValues : List (String × String)}

theorem startConnect_eq_ok :
    startConnect deployment providerId aliasName subServices configValues returnUrl redirectUri
      origin chance w = .ok w' ↔
    ∃ descriptor, deployment.getProvider providerId = some descriptor ∧
      (deployment.checkAlias aliasName = true ∧ validateSubServices descriptor subServices = true ∧
        validateReturnUrl returnUrl = true) ∧
      (descriptor.kind = .none ∧
          connectNoAuth descriptor aliasName subServices configValues chance w = .ok w' ∨
        descriptor.kind = .oauth ∧ configValues.isEmpty = true ∧
          startFlow deployment origin
            { providerId := descriptor.id
              aliasName := aliasName
              requestedScopes := scopesFor descriptor subServices
              enabledSubServices := subServices
              redirectUri := redirectUri
              operation := .connect } chance w = .ok w') := by
  rw [startConnect]
  cases deployment.getProvider providerId with
  | none => simp
  | some descriptor =>
    cases hkind : descriptor.kind <;>
      simp [hkind, bind_eq_ok, ensure_eq_ok]

theorem id_of_getProvider {descriptor : ProviderDescriptor}
    (h : deployment.getProvider providerId = some descriptor) : descriptor.id = providerId := by
  have hfound := List.find?_some (p := fun descriptor : ProviderDescriptor =>
    decide (descriptor.id = providerId)) h
  exact of_decide_eq_true hfound

theorem consistent_of_startConnect (h : w.Consistent) (hfresh : chance.Fresh w)
    (hok : startConnect deployment providerId aliasName subServices configValues returnUrl
      redirectUri origin chance w = .ok w') : w'.Consistent := by
  obtain ⟨descriptor, -, -, ⟨-, hconnect⟩ | ⟨-, -, hflow⟩⟩ := startConnect_eq_ok.mp hok
  · exact consistent_of_connectNoAuth h hfresh hconnect
  · obtain ⟨-, -, rfl⟩ := startFlow_eq_ok.mp hflow
    refine h.setFlow ?_
    rintro _ ⟨⟩
    nofun

/-- A start that settles leaves no more than a flow of no connection behind where it fails. -/
theorem eq_of_startConnect_error
    (hsettles : ∀ descriptor ∈ deployment.getProvider providerId, descriptor.kind = .none →
      chance.Settles
        (addManagedEntries descriptor subServices aliasName chance.connectionId) w)
    (herror : startConnect deployment providerId aliasName subServices configValues returnUrl
      redirectUri origin chance w = .error w') :
    w = w' ∨ ∃ flow : OAuthFlowState, flow.reconnectConnectionId = none ∧
      w.setFlow chance.flowId (some flow) = w' := by
  rw [startConnect] at herror
  split at herror
  · next descriptor hdescriptor =>
    obtain herror | ⟨_, -, herror⟩ := bind_eq_error.mp herror
    · exact .inl (ensure_eq_error.mp herror).2
    · split at herror
      · next hkind =>
        exact .inl (eq_of_connectNoAuth_error (hsettles descriptor hdescriptor hkind) herror)
      · obtain herror | ⟨_, -, herror⟩ := bind_eq_error.mp herror
        · exact .inl (ensure_eq_error.mp herror).2
        · exact (startFlow_eq_error herror).imp id fun heq => ⟨_, rfl, heq⟩
  · exact .inl (Except.error.inj herror)

/-- A start does not look at the flows. -/
theorem startConnect_of_rows {w₁ : World}
    (hok : startConnect deployment providerId aliasName subServices configValues returnUrl
      redirectUri origin chance w = .ok w')
    (hrows : w₁.rows = w.rows) (hmanifest : w₁.manifest = w.manifest) :
    ∃ w₂, startConnect deployment providerId aliasName subServices configValues returnUrl
      redirectUri origin chance w₁ = .ok w₂ := by
  obtain ⟨descriptor, hdescriptor, hchecks, hkind⟩ := startConnect_eq_ok.mp hok
  obtain ⟨hkind, hconnect⟩ | ⟨hkind, hempty, hflow⟩ := hkind
  · obtain ⟨hvalues, w₃, hpersist, happly⟩ := connectNoAuth_eq_ok.mp hconnect
    obtain ⟨hfree, hlands, rfl⟩ := persistNew_eq_ok.mp hpersist
    obtain ⟨manifest, hadded, happlies, -⟩ := applyChange_eq_ok.mp happly
    refine ⟨_, startConnect_eq_ok.mpr ⟨descriptor, hdescriptor, hchecks, .inl ⟨hkind,
      connectNoAuth_eq_ok.mpr ⟨hvalues, _, persistNew_eq_ok.mpr ⟨?_, hlands, rfl⟩,
        applyChange_eq_ok.mpr ⟨manifest, ?_, happlies, rfl⟩⟩⟩⟩⟩
    · rwa [hrows]
    · rwa [hmanifest]
  · obtain ⟨horigin, hputs, -⟩ := startFlow_eq_ok.mp hflow
    exact ⟨_, startConnect_eq_ok.mpr ⟨descriptor, hdescriptor, hchecks, .inr ⟨hkind, hempty,
      startFlow_eq_ok.mpr ⟨horigin, hputs, rfl⟩⟩⟩⟩

variable {connectionId : String}

theorem startReconnect_eq_ok :
    startReconnect deployment connectionId subServices returnUrl redirectUri origin chance w =
      .ok w' ↔
    chance.loads = true ∧ ∃ record, w.record connectionId = some record ∧ record.kind ≠ .none ∧
      ∃ descriptor, deployment.getProvider record.providerId = some descriptor ∧
        (validateSubServices descriptor subServices = true ∧ validateReturnUrl returnUrl = true) ∧
        startFlow deployment origin
          { providerId := descriptor.id
            aliasName := record.aliasName
            requestedScopes := scopesFor descriptor subServices
            enabledSubServices := subServices
            redirectUri := redirectUri
            operation := .reconnect
            reconnectConnectionId := some connectionId } chance w = .ok w' := by
  rw [startReconnect]
  cases w.record connectionId with
  | none => simp [bind_eq_ok, ensure_eq_ok]
  | some record =>
    cases hprovider : deployment.getProvider record.providerId with
    | none => simp [hprovider, bind_eq_ok, ensure_eq_ok]
    | some descriptor => simp [hprovider, bind_eq_ok, ensure_eq_ok]

/-- A flow of a connection that has a record. -/
theorem consistent_of_setFlow (h : w.Consistent) (hrecord : w.record connectionId = some record)
    (hreconnect : flow.reconnectConnectionId = some connectionId)
    (hprovider : flow.providerId = record.providerId) {flowId : String} :
    (w.setFlow flowId (some flow)).Consistent := by
  refine h.setFlow ?_
  rintro _ ⟨⟩ connectionId' hid record' hrecord'
  obtain rfl := Option.some.inj (hid.symm.trans hreconnect)
  obtain rfl := Option.some.inj (hrecord'.symm.trans hrecord)
  exact hprovider

theorem consistent_of_startReconnect (h : w.Consistent)
    (hok : startReconnect deployment connectionId subServices returnUrl redirectUri origin chance
      w = .ok w') : w'.Consistent := by
  obtain ⟨-, record, hrecord, -, descriptor, hdescriptor, -, hflow⟩ := startReconnect_eq_ok.mp hok
  obtain ⟨-, -, rfl⟩ := startFlow_eq_ok.mp hflow
  exact consistent_of_setFlow h hrecord rfl (id_of_getProvider hdescriptor)

theorem eq_of_startReconnect_error
    (herror : startReconnect deployment connectionId subServices returnUrl redirectUri origin
      chance w = .error w') :
    w = w' ∨ ∃ record, w.record connectionId = some record ∧ ∃ flow : OAuthFlowState,
      flow.reconnectConnectionId = some connectionId ∧ flow.providerId = record.providerId ∧
      w.setFlow chance.flowId (some flow) = w' := by
  rw [startReconnect, bind_eq_error] at herror
  obtain herror | ⟨_, -, herror⟩ := herror
  · exact .inl (ensure_eq_error.mp herror).2
  · split at herror
    · next record hrecord =>
      obtain herror | ⟨_, -, herror⟩ := bind_eq_error.mp herror
      · exact .inl (ensure_eq_error.mp herror).2
      · split at herror
        · next descriptor hdescriptor =>
          obtain herror | ⟨_, -, herror⟩ := bind_eq_error.mp herror
          · exact .inl (ensure_eq_error.mp herror).2
          · exact (startFlow_eq_error herror).imp id fun heq =>
              ⟨record, hrecord, _, rfl, id_of_getProvider hdescriptor, heq⟩
        · exact .inl (Except.error.inj herror)
    · exact .inl (Except.error.inj herror)

/-- A start of a reconnect does not look at the flows. -/
theorem startReconnect_of_rows {w₁ : World}
    (hok : startReconnect deployment connectionId subServices returnUrl redirectUri origin chance
      w = .ok w') (hrows : w₁.rows = w.rows) :
    ∃ w₂, startReconnect deployment connectionId subServices returnUrl redirectUri origin chance
      w₁ = .ok w₂ := by
  obtain ⟨hloads, record, hrecord, hkind, descriptor, hdescriptor, hchecks, hflow⟩ :=
    startReconnect_eq_ok.mp hok
  obtain ⟨horigin, hputs, -⟩ := startFlow_eq_ok.mp hflow
  have hrecord' : w₁.record connectionId = some record := by rw [World.record, hrows]; exact hrecord
  exact ⟨_, startReconnect_eq_ok.mpr ⟨hloads, record, hrecord', hkind, descriptor, hdescriptor,
    hchecks, startFlow_eq_ok.mpr ⟨horigin, hputs, rfl⟩⟩⟩

/-! ## Completions -/

theorem flows_of_perform_error (hwrite : (write w).flows = w.flows)
    (h : perform reply write w = .error w') : w'.flows = w.flows := by
  obtain ⟨-, rfl⟩ | ⟨-, rfl⟩ := perform_eq_error.mp h
  · rfl
  · exact hwrite

theorem flows_of_persistNew_error (h : persistNew reply record w = .error w') :
    w'.flows = w.flows := by
  rw [persistNew] at h
  split_ifs at h
  · rw [Except.error.inj h]
  · exact flows_of_perform_error rfl h

theorem flows_of_applyChange_error (h : applyChange reply mutator w = .error w') :
    w'.flows = w.flows := by
  rw [applyChange] at h
  split at h
  · exact flows_of_perform_error rfl h
  · rw [Except.error.inj h]

variable {descriptor : ProviderDescriptor} {tokens : TokenResponse}

/-- What is taken and what is added make the new set out of the old one. -/
theorem mem_iff_of_minus {old new : List String} {subId : String} : subId ∈ new ↔
    subId ∈ old ∧ subId ∉ minus old new ∨ subId ∈ minus new old := by
  simp only [mem_minus]
  by_cases hold : subId ∈ old <;> by_cases hnew : subId ∈ new <;> simp [hold, hnew]

theorem consistent_of_completeReconnectOrToggle (h : w.Consistent)
    (hdescriptor : descriptor.id = flow.providerId)
    (hflow : ∀ connectionId ∈ flow.reconnectConnectionId, ∀ record ∈ w.record connectionId,
      flow.providerId = record.providerId)
    (hok : completeReconnectOrToggle flow descriptor tokens chance w = .ok w') :
    w'.Consistent := by
  rw [completeReconnectOrToggle] at hok
  split at hok
  · next connectionId hconnection =>
    obtain ⟨_, -, hok⟩ := bind_eq_ok.mp hok
    split at hok
    · next record hrecord =>
      obtain ⟨w₁, hpersist, hok⟩ := bind_eq_ok.mp hok
      obtain ⟨-, rfl⟩ := perform_eq_ok.mp hpersist
      have hid : (reconnectedRecord flow tokens record).connectionId = connectionId := by
        show record.connectionId = connectionId
        exact World.connectionId_of_record hrecord
      have hprovider := hdescriptor.trans (hflow connectionId hconnection record hrecord)
      have hadd : ∀ subId ∈ minus (sortedSet flow.enabledSubServices) record.enabledSubServices,
          subId ∉ record.enabledSubServices := fun _ hmem => (mem_minus.mp hmem).2
      split_ifs at hok with hstill
      · obtain rfl := Except.ok.inj hok
        have hmanifest : reconcile descriptor record.aliasName connectionId
            (minus record.enabledSubServices (sortedSet flow.enabledSubServices))
            (minus (sortedSet flow.enabledSubServices) record.enabledSubServices) w.manifest =
              some w.manifest := by
          rw [hstill.1, hstill.2]
          exact World.reconcile_nil w.manifest
        exact h.reconcile _ hrecord hid rfl rfl hprovider hmanifest hadd fun _ => mem_iff_of_minus
      · obtain ⟨manifest, hmanifest, -, rfl⟩ := applyChange_eq_ok.mp hok
        exact h.reconcile _ hrecord hid rfl rfl hprovider hmanifest hadd fun _ => mem_iff_of_minus
    · cases hok
  · cases hok

variable {flowId : String}

theorem consistent_of_completeConnect (h : w.Consistent) (hfresh : chance.Fresh w)
    (hok : completeConnect deployment flowId chance w = .ok w') : w'.Consistent := by
  rw [completeConnect] at hok
  obtain ⟨w₁, hpop, hok⟩ := bind_eq_ok.mp hok
  obtain ⟨-, rfl⟩ := perform_eq_ok.mp hpop
  have hpopped : (w.setFlow flowId none).Consistent := h.setFlow nofun
  have hfresh' : chance.Fresh (w.setFlow flowId none) := by
    refine ⟨hfresh.1, fun flowId' flow hflow => ?_⟩
    have hupdated : (if flowId' = flowId then none else w.flows flowId') = some flow :=
      (Function.update_apply w.flows flowId none flowId').symm.trans hflow
    split_ifs at hupdated
    exact hfresh.2 flowId' flow hupdated
  split at hok
  · next flow hflow =>
    split at hok
    · next descriptor hdescriptor =>
      have hid := id_of_getProvider hdescriptor
      obtain ⟨_, -, hok⟩ := bind_eq_ok.mp hok
      split at hok
      · next tokens _ =>
        split at hok
        · obtain ⟨_, -, hok⟩ := bind_eq_ok.mp hok
          obtain ⟨w₁, hpersist, happly⟩ := bind_eq_ok.mp hok
          obtain ⟨-, -, rfl⟩ := persistNew_eq_ok.mp hpersist
          obtain ⟨manifest, hmanifest, -, rfl⟩ := applyChange_eq_ok.mp happly
          exact hpopped.connect (connectedRecord flow tokens chance) hfresh'.1 hfresh'.2
            hid hmanifest
        · exact consistent_of_completeReconnectOrToggle hpopped hid (h.flows flowId flow hflow) hok
      · cases hok
    · cases hok
  · cases hok

theorem flows_of_completeReconnectOrToggle_error
    (herror : completeReconnectOrToggle flow descriptor tokens chance w = .error w') :
    w'.flows = w.flows := by
  rw [completeReconnectOrToggle] at herror
  split at herror
  · obtain herror | ⟨_, -, herror⟩ := bind_eq_error.mp herror
    · rw [(ensure_eq_error.mp herror).2]
    · split at herror
      · obtain hpersist | ⟨w₁, hpersist, herror⟩ := bind_eq_error.mp herror
        · exact flows_of_perform_error rfl hpersist
        · obtain ⟨-, rfl⟩ := perform_eq_ok.mp hpersist
          split_ifs at herror
          · cases herror
          · have hflows := flows_of_applyChange_error herror
            exact hflows
      · rw [Except.error.inj herror]
  · rw [Except.error.inj herror]

/-- An attempt that fails has not changed the world, or has taken the flow. -/
theorem popped_of_completeConnect_error
    (herror : completeConnect deployment flowId chance w = .error w') :
    w = w' ∨ w'.flows flowId = none := by
  have hpopped : (w.setFlow flowId none).flows flowId = none := Function.update_self ..
  rw [completeConnect] at herror
  obtain hpop | ⟨w₁, hpop, herror⟩ := bind_eq_error.mp herror
  · obtain ⟨-, heq⟩ | ⟨-, rfl⟩ := perform_eq_error.mp hpop
    · exact .inl heq
    · exact .inr hpopped
  · obtain ⟨-, rfl⟩ := perform_eq_ok.mp hpop
    suffices w'.flows = (w.setFlow flowId none).flows from .inr (this ▸ hpopped)
    split at herror
    · split at herror
      · obtain herror | ⟨_, -, herror⟩ := bind_eq_error.mp herror
        · rw [(ensure_eq_error.mp herror).2]
        · split at herror
          · split at herror
            · obtain herror | ⟨_, -, herror⟩ := bind_eq_error.mp herror
              · rw [(ensure_eq_error.mp herror).2]
              · obtain hpersist | ⟨w₁, hpersist, happly⟩ := bind_eq_error.mp herror
                · exact flows_of_persistNew_error hpersist
                · obtain ⟨-, -, rfl⟩ := persistNew_eq_ok.mp hpersist
                  have hflows := flows_of_applyChange_error happly
                  exact hflows
            · exact flows_of_completeReconnectOrToggle_error herror
          · rw [Except.error.inj herror]
      · rw [Except.error.inj herror]
    · rw [Except.error.inj herror]

/-- Once its flow has been taken, every attempt raises and leaves records and manifest alone. -/
theorem completeConnect_of_popped (hpopped : w.flows flowId = none) :
    ∃ w', completeConnect deployment flowId chance w = .error w' ∧ w'.rows = w.rows ∧
      w'.manifest = w.manifest ∧ w'.flows flowId = none := by
  have hnone : (w.setFlow flowId none).flows flowId = none := Function.update_self ..
  cases hpops : chance.pops with
  | fails => exact ⟨w, by simp [completeConnect, hpops, perform], rfl, rfl, hpopped⟩
  | lands =>
    exact ⟨w.setFlow flowId none, by simp [completeConnect, hpops, perform, hpopped], rfl, rfl,
      hnone⟩
  | landsAndRaises =>
    exact ⟨w.setFlow flowId none, by simp [completeConnect, hpops, perform], rfl, rfl, hnone⟩

/-! ## Disconnects -/

theorem disconnect_eq_ok : disconnect connectionId chance w = .ok w' ↔
    chance.loads = true ∧ ∃ record, w.record connectionId = some record ∧
      (record.kind = .none ∨ record.refreshToken.isSome = true) ∧ chance.applies = .lands ∧
      chance.deletes = .lands ∧
      { w.delete connectionId with
        manifest := removeManagedEntries connectionId none w.manifest } = w' := by
  rw [disconnect]
  cases w.record connectionId with
  | none => simp [bind_eq_ok, ensure_eq_ok]
  | some record => simp [bind_eq_ok, ensure_eq_ok, applyChange_eq_ok, perform_eq_ok, World.delete]

theorem eq_of_disconnect_error (hdeletes : chance.deletes ≠ .landsAndRaises)
    (herror : disconnect connectionId chance w = .error w') :
    w = w' ∨ { w with manifest := removeManagedEntries connectionId none w.manifest } = w' := by
  rw [disconnect] at herror
  obtain herror | ⟨_, -, herror⟩ := bind_eq_error.mp herror
  · exact .inl (ensure_eq_error.mp herror).2
  · split at herror
    · obtain herror | ⟨_, -, herror⟩ := bind_eq_error.mp herror
      · exact .inl (ensure_eq_error.mp herror).2
      · obtain happly | ⟨w₁, happly, hdelete⟩ := bind_eq_error.mp herror
        · obtain ⟨heq, -⟩ | ⟨-, _, ⟨⟩, heq⟩ := applyChange_eq_error happly
          · exact .inl heq
          · exact .inr heq
        · obtain ⟨_, ⟨⟩, -, rfl⟩ := applyChange_eq_ok.mp happly
          obtain ⟨-, heq⟩ | ⟨hraises, -⟩ := perform_eq_error.mp hdelete
          · exact .inr heq
          · exact absurd hraises hdeletes
    · exact .inl (Except.error.inj herror)

theorem remove_remove (entries : List ManifestEntry) :
    removeManagedEntries connectionId none (removeManagedEntries connectionId none entries) =
      removeManagedEntries connectionId none entries := by
  rw [removeManagedEntries, removeManagedEntries, List.filter_filter]
  simp only [Bool.and_self]

/-! ## Patches -/

variable {desired : List String}

/-- The record and the manifest after a patch. -/
def patched (record : ConnectionRecord) (toggle : Toggle) (manifest : List ManifestEntry)
    (w : World) : World :=
  { w.replace { record with enabledSubServices := toggle.newEnabled } with manifest }

theorem reconcile_of_still {toggle : Toggle} (hstill : toggle.Still) (aliasName : String) :
    reconcile descriptor aliasName connectionId toggle.toRemove toggle.canInline w.manifest =
      some w.manifest := by
  rw [hstill.1, hstill.2]
  exact World.reconcile_nil w.manifest

theorem consistent_of_patched (h : w.Consistent) (hrecord : w.record connectionId = some record)
    (hdescriptor : descriptor.id = record.providerId) {manifest : List ManifestEntry}
    (hmanifest : reconcile descriptor record.aliasName connectionId
      (record.toggle descriptor desired).toRemove (record.toggle descriptor desired).canInline
      w.manifest = some manifest) :
    (patched record (record.toggle descriptor desired) manifest w).Consistent := by
  have hid : record.connectionId = connectionId := World.connectionId_of_record hrecord
  unfold patched
  refine h.reconcile
    { record with enabledSubServices := (record.toggle descriptor desired).newEnabled }
    hrecord hid rfl rfl hdescriptor hmanifest (fun subId hmem => ?_) fun subId => ?_
  · exact (mem_minus.mp (List.mem_of_mem_filter hmem)).2
  · simp only [ConnectionRecord.toggle, mem_sortedSet, List.mem_append, mem_minus]

/-- The manifest is reconciled, or there is nothing to reconcile. -/
theorem reconciled_eq_ok {toggle : Toggle} {aliasName : String} :
    (if toggle.Still then .ok w else applyChange reply
      (reconcile descriptor aliasName connectionId toggle.toRemove toggle.canInline) w) = .ok w' ↔
    ∃ manifest, reconcile descriptor aliasName connectionId toggle.toRemove toggle.canInline
      w.manifest = some manifest ∧ (toggle.Still ∨ reply = .lands) ∧ { w with manifest } = w' := by
  split_ifs with hstill
  · rw [reconcile_of_still hstill]
    simp [hstill]
  · rw [applyChange_eq_ok]
    simp [hstill]

theorem patchSubServices_eq_ok :
    patchSubServices deployment connectionId desired returnUrl redirectUri origin chance w =
      .ok w' ↔
    validateReturnUrl returnUrl = true ∧ chance.loads = true ∧ ∃ record,
      w.record connectionId = some record ∧ ∃ descriptor,
      deployment.getProvider record.providerId = some descriptor ∧
      validateSubServices descriptor desired = true ∧
      ¬(record.enabledSubServices ⊆ desired ∧ desired ⊆ record.enabledSubServices) ∧
      ((record.toggle descriptor desired).needsConsent = [] ∨ origin ∈ deployment.allowlist) ∧
      chance.persists = .lands ∧ ∃ manifest,
      reconcile descriptor record.aliasName connectionId
        (record.toggle descriptor desired).toRemove (record.toggle descriptor desired).canInline
        w.manifest = some manifest ∧
      ((record.toggle descriptor desired).Still ∨ chance.applies = .lands) ∧
      (if (record.toggle descriptor desired).needsConsent = [] then
        patched record (record.toggle descriptor desired) manifest w = w'
      else
        startFlow deployment origin
          (consentFlow descriptor record (record.toggle descriptor desired) connectionId
            redirectUri) chance
          (patched record (record.toggle descriptor desired) manifest w) = .ok w') := by
  rw [patchSubServices]
  cases w.record connectionId with
  | none => simp [bind_eq_ok, ensure_eq_ok]
  | some record =>
    cases hprovider : deployment.getProvider record.providerId with
    | none => simp [hprovider, bind_eq_ok, ensure_eq_ok]
    | some descriptor =>
      simp only [hprovider, bind_eq_ok, ensure_eq_ok, perform_eq_ok, reconciled_eq_ok]
      constructor
      · rintro ⟨_, hurl, _, hloads, _, hvalid, _, hchanged, _, horigin, _, ⟨hpersists, rfl⟩, _,
          ⟨manifest, hmanifest, happlies, rfl⟩, hend⟩
        refine ⟨hurl, hloads, record, rfl, descriptor, hprovider, hvalid,
          of_decide_eq_true hchanged, of_decide_eq_true horigin, hpersists, manifest, hmanifest,
          happlies, ?_⟩
        split_ifs at hend ⊢
        · exact Except.ok.inj hend
        · exact hend
      · rintro ⟨hurl, hloads, _, ⟨⟩, descriptor', hdescriptor', hvalid, hchanged, horigin,
          hpersists, manifest, hmanifest, happlies, hend⟩
        obtain rfl := Option.some.inj (hprovider.symm.trans hdescriptor')
        refine ⟨(), hurl, (), hloads, (), hvalid, (), decide_eq_true hchanged, (),
          decide_eq_true horigin, _, ⟨hpersists, rfl⟩, _, ⟨manifest, hmanifest, happlies, rfl⟩, ?_⟩
        split_ifs at hend ⊢
        · exact congrArg Except.ok hend
        · exact hend

/-! ### The toggle of a patch -/

theorem mem_canInline {subId : String} : subId ∈ (record.toggle descriptor desired).canInline ↔
    (subId ∈ desired ∧ subId ∉ record.enabledSubServices) ∧
      record.inlines descriptor subId = true := by
  simp only [ConnectionRecord.toggle, List.mem_filter, mem_minus, List.mem_dedup]

theorem mem_needsConsent {subId : String} :
    subId ∈ (record.toggle descriptor desired).needsConsent ↔
      (subId ∈ desired ∧ subId ∉ record.enabledSubServices) ∧
        record.inlines descriptor subId = false := by
  simp only [ConnectionRecord.toggle, List.mem_filter, mem_minus, List.mem_dedup, Bool.not_eq_true']

theorem mem_newEnabled {subId : String} : subId ∈ (record.toggle descriptor desired).newEnabled ↔
    subId ∈ record.enabledSubServices ∧ subId ∈ desired ∨
      subId ∈ (record.toggle descriptor desired).canInline := by
  simp only [ConnectionRecord.toggle, mem_sortedSet, List.mem_append, mem_minus, not_and, not_not]
  refine or_congr (and_congr_right fun hmem => ?_) Iff.rfl
  exact ⟨fun h => h hmem, fun h _ => h⟩

/-- A patch that leaves the manifest as it is changes something, so that it needs a consent. -/
theorem needsConsent_ne_nil (hstill : (record.toggle descriptor desired).Still)
    (hchanged : ¬(record.enabledSubServices ⊆ desired ∧ desired ⊆ record.enabledSubServices)) :
    (record.toggle descriptor desired).needsConsent ≠ [] := by
  refine fun hnil => hchanged ⟨fun subId hmem => ?_, fun subId hmem => ?_⟩
  · by_contra hnot
    exact List.eq_nil_iff_forall_not_mem.mp hstill.1 subId (mem_minus.mpr ⟨hmem, hnot⟩)
  · by_contra hnot
    cases hinlines : record.inlines descriptor subId with
    | true =>
      exact List.eq_nil_iff_forall_not_mem.mp hstill.2 subId
        (mem_canInline.mpr ⟨⟨hmem, hnot⟩, hinlines⟩)
    | false =>
      exact List.eq_nil_iff_forall_not_mem.mp hnil subId
        (mem_needsConsent.mpr ⟨⟨hmem, hnot⟩, hinlines⟩)

/-- The record of a patch. -/
def patchedRecord (record : ConnectionRecord) (descriptor : ProviderDescriptor)
    (desired : List String) : ConnectionRecord :=
  { record with enabledSubServices := (record.toggle descriptor desired).newEnabled }

/-- Once patched, there is nothing left to reconcile. -/
theorem still_of_patchedRecord :
    ((patchedRecord record descriptor desired).toggle descriptor desired).Still := by
  constructor
  · refine List.eq_nil_iff_forall_not_mem.mpr fun subId hmem => ?_
    obtain ⟨hnew, hnot⟩ := mem_minus.mp hmem
    obtain ⟨-, hdesired⟩ | hinline := mem_newEnabled.mp hnew
    · exact hnot hdesired
    · exact hnot (mem_canInline.mp hinline).1.1
  · refine List.eq_nil_iff_forall_not_mem.mpr fun subId hmem => ?_
    obtain ⟨⟨hdesired, hnew⟩, hinlines⟩ := mem_canInline.mp hmem
    refine hnew (mem_newEnabled.mpr ?_)
    by_cases henabled : subId ∈ record.enabledSubServices
    · exact .inl ⟨henabled, hdesired⟩
    · exact .inr (mem_canInline.mpr ⟨⟨hdesired, henabled⟩, hinlines⟩)

/-- What needs a consent is not enabled by the patch. -/
theorem not_mem_newEnabled {subId : String}
    (h : subId ∈ (record.toggle descriptor desired).needsConsent) :
    subId ∉ (record.toggle descriptor desired).newEnabled := by
  obtain ⟨⟨-, hnot⟩, hinlines⟩ := mem_needsConsent.mp h
  refine fun hnew => ?_
  obtain ⟨henabled, -⟩ | hinline := mem_newEnabled.mp hnew
  · exact hnot henabled
  · rw [(mem_canInline.mp hinline).2] at hinlines
    cases hinlines

/-- A patch that needs a consent and has changed the record and the manifest can be made again. -/
theorem patchSubServices_again {w : World}
    (hrecord : w.record connectionId = some (patchedRecord record descriptor desired))
    (hdescriptor : deployment.getProvider record.providerId = some descriptor)
    (hurl : validateReturnUrl returnUrl = true)
    (hvalid : validateSubServices descriptor desired = true)
    (hconsent : (record.toggle descriptor desired).needsConsent ≠ [])
    (horigin : origin ∈ deployment.allowlist) (hloads : chance.loads = true)
    (hpersists : chance.persists = .lands) (hputs : chance.puts = .lands) :
    ∃ w', patchSubServices deployment connectionId desired returnUrl redirectUri origin chance w =
      .ok w' := by
  obtain ⟨subId, hsub⟩ := List.exists_mem_of_ne_nil _ hconsent
  obtain ⟨⟨hdesired, -⟩, hinlines⟩ := mem_needsConsent.mp hsub
  have hnew : subId ∉ (patchedRecord record descriptor desired).enabledSubServices :=
    not_mem_newEnabled hsub
  have hagain : subId ∈
      ((patchedRecord record descriptor desired).toggle descriptor desired).needsConsent :=
    mem_needsConsent.mpr ⟨⟨hdesired, hnew⟩, hinlines⟩
  obtain ⟨w', hflow⟩ : ∃ w', startFlow deployment origin
      (consentFlow descriptor (patchedRecord record descriptor desired)
        ((patchedRecord record descriptor desired).toggle descriptor desired) connectionId
        redirectUri) chance
      (patched (patchedRecord record descriptor desired)
        ((patchedRecord record descriptor desired).toggle descriptor desired) w.manifest w) =
        .ok w' :=
    ⟨_, startFlow_eq_ok.mpr ⟨horigin, hputs, rfl⟩⟩
  refine ⟨w', patchSubServices_eq_ok.mpr ⟨hurl, hloads, _, hrecord, descriptor, hdescriptor, hvalid,
    fun hsame => hnew (hsame.2 hdesired), .inr horigin, hpersists, w.manifest,
    reconcile_of_still still_of_patchedRecord _, .inl still_of_patchedRecord, ?_⟩⟩
  rwa [if_neg (List.ne_nil_of_mem hagain)]

/-- A safe patch that fails leaves the world as it was, or has changed the record and the manifest
and goes on to a consent. -/
theorem eq_of_patchSubServices_error
    (hsafe : ∀ record ∈ w.record connectionId,
      ∀ descriptor ∈ deployment.getProvider record.providerId,
      let toggle := record.toggle descriptor desired
      toggle.Still ∨ chance.persists ≠ .landsAndRaises ∧
        (chance.persists = .lands →
          (reconcile descriptor record.aliasName connectionId toggle.toRemove toggle.canInline
            w.manifest).isSome ∧
          (chance.applies = .lands ∨
            chance.applies = .landsAndRaises ∧ toggle.needsConsent ≠ [])))
    (herror : patchSubServices deployment connectionId desired returnUrl redirectUri origin chance
      w = .error w') :
    w = w' ∨ ∃ record, w.record connectionId = some record ∧ ∃ descriptor,
      deployment.getProvider record.providerId = some descriptor ∧
      validateReturnUrl returnUrl = true ∧ validateSubServices descriptor desired = true ∧
      (record.toggle descriptor desired).needsConsent ≠ [] ∧ origin ∈ deployment.allowlist ∧
      ∃ manifest, reconcile descriptor record.aliasName connectionId
        (record.toggle descriptor desired).toRemove (record.toggle descriptor desired).canInline
        w.manifest = some manifest ∧
      (patched record (record.toggle descriptor desired) manifest w = w' ∨
        (patched record (record.toggle descriptor desired) manifest w).setFlow chance.flowId
          (some (consentFlow descriptor record (record.toggle descriptor desired) connectionId
            redirectUri)) = w') := by
  rw [patchSubServices] at herror
  obtain herror | ⟨_, hurl, herror⟩ := bind_eq_error.mp herror
  · exact .inl (ensure_eq_error.mp herror).2
  obtain herror | ⟨_, -, herror⟩ := bind_eq_error.mp herror
  · exact .inl (ensure_eq_error.mp herror).2
  split at herror
  · next record hrecord =>
    split at herror
    · next descriptor hdescriptor =>
      obtain herror | ⟨_, hvalid, herror⟩ := bind_eq_error.mp herror
      · exact .inl (ensure_eq_error.mp herror).2
      obtain herror | ⟨_, hchanged, herror⟩ := bind_eq_error.mp herror
      · exact .inl (ensure_eq_error.mp herror).2
      obtain herror | ⟨_, horigin, herror⟩ := bind_eq_error.mp herror
      · exact .inl (ensure_eq_error.mp herror).2
      have hurl := ensure_eq_ok.mp hurl
      have hvalid := ensure_eq_ok.mp hvalid
      have hchanged := of_decide_eq_true (ensure_eq_ok.mp hchanged)
      have horigin := of_decide_eq_true (ensure_eq_ok.mp horigin)
      have hsafe := hsafe record hrecord descriptor hdescriptor
      obtain hpersist | ⟨w₁, hpersist, herror⟩ := bind_eq_error.mp herror
      · obtain ⟨-, heq⟩ | ⟨hraises, heq⟩ := perform_eq_error.mp hpersist
        · exact .inl heq
        · -- the record is written with the sub-services that it has
          have hstill := hsafe.resolve_right fun hsettles => hsettles.1 hraises
          have hconsent := needsConsent_ne_nil hstill hchanged
          exact .inr ⟨record, hrecord, descriptor, hdescriptor, hurl, hvalid, hconsent,
            horigin.resolve_left hconsent, w.manifest, reconcile_of_still hstill _, .inl heq⟩
      · obtain ⟨hlands, rfl⟩ := perform_eq_ok.mp hpersist
        obtain happly | ⟨w₂, happly, herror⟩ := bind_eq_error.mp herror
        · split_ifs at happly with hstill
          obtain ⟨hsome, hreply⟩ := (hsafe.resolve_left hstill).2 hlands
          obtain ⟨-, hnone | hfails⟩ | ⟨hraises, manifest, hmanifest, heq⟩ :=
            applyChange_eq_error happly
          · exact absurd hnone (Option.isSome_iff_ne_none.mp hsome)
          · rw [hfails] at hreply
            obtain hreply | ⟨hreply, -⟩ := hreply <;> cases hreply
          · obtain hreply | ⟨-, hconsent⟩ := hreply
            · rw [hraises] at hreply
              cases hreply
            · exact .inr ⟨record, hrecord, descriptor, hdescriptor, hurl, hvalid, hconsent,
                horigin.resolve_left hconsent, manifest, hmanifest, .inl heq⟩
        · obtain ⟨manifest, hmanifest, -, rfl⟩ := reconciled_eq_ok.mp happly
          split_ifs at herror with hconsent
          · cases herror
          · exact .inr ⟨record, hrecord, descriptor, hdescriptor, hurl, hvalid, hconsent,
              horigin.resolve_left hconsent, manifest, hmanifest, startFlow_eq_error herror⟩
    · exact .inl (Except.error.inj herror)
  · exact .inl (Except.error.inj herror)

end

end TaiSkeleton.Connectors.Service
