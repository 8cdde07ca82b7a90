import TaiSkeleton.Connectors.ServiceAttempts
import TaiSkeleton.Lib.Run

/-!
# Retries of the connection service

A call is attempted again with the same arguments until it returns. Where no attempt fails between
the write of the record and that of the manifest, the record and the managed entries agree once it
has returned, and an attempt that fails leaves a world from which a retry can return, unless it has
taken the flow of the call.
-/

namespace TaiSkeleton.Connectors.Service

open Lib

/-! ## Trials -/

section

variable (deployment : Deployment)

/-- No attempt of a connect or a patch fails between the write of the record and that of the
manifest, or after both where the call does not go on to a consent, and no deletion of a record
raises after it has taken effect. -/
def Call.Safe (call : Call) (chance : Chance) (w : World) : Prop :=
  match call with
  | .startConnect providerId aliasName enabledSubServices _ _ _ _ =>
    ∀ descriptor ∈ deployment.getProvider providerId, descriptor.kind = .none →
      chance.Settles
        (addManagedEntries descriptor enabledSubServices aliasName chance.connectionId) w
  | .disconnect _ => chance.deletes ≠ .landsAndRaises
  | .patchSubServices connectionId desired _ _ _ =>
    ∀ record ∈ w.record connectionId, ∀ descriptor ∈ deployment.getProvider record.providerId,
      let toggle := record.toggle descriptor desired
      toggle.Still ∨ chance.persists ≠ .landsAndRaises ∧
        (chance.persists = .lands →
          (reconcile descriptor record.aliasName connectionId toggle.toRemove toggle.canInline
            w.manifest).isSome ∧
          (chance.applies = .lands ∨
            chance.applies = .landsAndRaises ∧ toggle.needsConsent ≠ []))
  | _ => True

/-- Some attempt of the call returns. -/
def Call.CanReturn (call : Call) (w : World) : Prop :=
  ∃ chance : Chance, chance.Fresh w ∧ ∃ w', attempt deployment chance w call = .ok w'

/-- The flow of the call has been taken. -/
def Call.Popped (call : Call) (w : World) : Prop :=
  match call with
  | .completeConnect flowId => w.flows flowId = none
  | _ => False

/-- A connection that is to be disconnected has no record. -/
def Call.Gone (call : Call) (w : World) : Prop :=
  match call with
  | .disconnect connectionId => w.record connectionId = none
  | _ => True

/-- The attempts of a call from a start on. -/
structure Trial where
  start : World
  world : World
  returned : Bool := false

/-- The next attempt of a call that has not returned. -/
def Trial.next (call : Call) (t : Trial) (chance : Chance) : Option Trial :=
  if t.returned then none
  else match attempt deployment chance t.world call with
    | .ok world => some { t with world, returned := true }
    | .error world => some { t with world }

/-- The retries of a call. -/
def retries (call : Call) : System Trial Chance where
  init t := t.start.Consistent ∧ t.world = t.start ∧ t.returned = false
  step t chance t' := chance.Fresh t.world ∧ t.next deployment call chance = some t'

end

section

variable {w w' : World} {record : ConnectionRecord} {deployment : Deployment} {chance : Chance}
  {connectionId : String} {descriptor : ProviderDescriptor} {desired : List String}

/-! ## Attempts -/

theorem fresh_setFlow (hfresh : chance.Fresh w) {flowId : String} {flow : Option OAuthFlowState}
    (hflow : ∀ flow' ∈ flow, flow'.reconnectConnectionId ≠ some chance.connectionId) :
    chance.Fresh (w.setFlow flowId flow) := by
  refine ⟨hfresh.1, fun flowId' flow' hflow' => ?_⟩
  have hupdated : (if flowId' = flowId then flow else w.flows flowId') = some flow' :=
    (Function.update_apply w.flows flowId flow flowId').symm.trans hflow'
  split_ifs at hupdated
  · exact hflow flow' hupdated
  · exact hfresh.2 flowId' flow' hupdated

theorem ne_of_fresh (hfresh : chance.Fresh w) (hrecord : w.record connectionId = some record) :
    some connectionId ≠ some chance.connectionId := by
  rintro heq
  refine hfresh.1 record (World.mem_rows_of_record hrecord) ?_
  rw [World.connectionId_of_record hrecord]
  exact Option.some.inj heq

theorem fresh_patched (hfresh : chance.Fresh w) (hrecord : w.record connectionId = some record)
    {toggle : Toggle} {manifest : List ManifestEntry} :
    chance.Fresh (patched record toggle manifest w) := by
  refine ⟨fun row hrow => ?_, hfresh.2⟩
  obtain ⟨old, hold, rfl⟩ := List.mem_map.mp hrow
  show (if old.connectionId = record.connectionId then _ else old).connectionId ≠ _
  split_ifs
  · exact hfresh.1 record (World.mem_rows_of_record hrecord)
  · exact hfresh.1 old hold

theorem record_patched (hrecord : w.record connectionId = some record)
    {manifest : List ManifestEntry} :
    (patched record (record.toggle descriptor desired) manifest w).record connectionId =
      some (patchedRecord record descriptor desired) := by
  refine (World.record_replace w (patchedRecord record descriptor desired) connectionId).trans ?_
  rw [hrecord, Option.map_some]
  exact if_pos (World.connectionId_of_record hrecord).symm

variable {call : Call}

/-- What an attempt of a call starts from: a consistent world, without the flow of the call, or
without the entries of the connection that is to be disconnected. -/
def Call.Ready (call : Call) (w : World) : Prop :=
  match call with
  | .completeConnect flowId => w.Consistent ∨ w.flows flowId = none
  | .disconnect connectionId => ∃ w₀ : World, w₀.Consistent ∧ (w₀ = w ∨
      { w₀ with manifest := removeManagedEntries connectionId none w₀.manifest } = w)
  | _ => w.Consistent

theorem Call.ready_of_consistent (h : w.Consistent) : call.Ready w := by
  cases call with
  | startConnect => exact h
  | startReconnect => exact h
  | completeConnect => exact .inl h
  | disconnect => exact ⟨w, h, .inl rfl⟩
  | patchSubServices => exact h

/-- Once its flow has been taken, every attempt raises and leaves records and manifest alone. -/
theorem attempt_of_popped (hpopped : call.Popped w) :
    ∃ w', attempt deployment chance w call = .error w' ∧ w'.rows = w.rows ∧
      w'.manifest = w.manifest ∧ call.Popped w' := by
  cases call with
  | completeConnect flowId => exact completeConnect_of_popped hpopped
  | startConnect => exact hpopped.elim
  | startReconnect => exact hpopped.elim
  | disconnect => exact hpopped.elim
  | patchSubServices => exact hpopped.elim

/-- Once an attempt returns, records and manifest agree. -/
theorem consistent_of_attempt (hready : call.Ready w) (hfresh : chance.Fresh w)
    (hok : attempt deployment chance w call = .ok w') : w'.Consistent ∧ call.Gone w' := by
  cases call with
  | startConnect => exact ⟨consistent_of_startConnect hready hfresh hok, trivial⟩
  | startReconnect => exact ⟨consistent_of_startReconnect hready hok, trivial⟩
  | completeConnect flowId =>
    obtain h | hpopped := hready
    · exact ⟨consistent_of_completeConnect h hfresh hok, trivial⟩
    · obtain ⟨_, herror, -⟩ := completeConnect_of_popped hpopped
      cases herror.symm.trans hok
  | disconnect connectionId =>
    obtain ⟨w₀, h, hw⟩ := hready
    obtain ⟨-, _, -, -, -, -, rfl⟩ := disconnect_eq_ok.mp hok
    refine ⟨?_, (World.record_delete w connectionId connectionId).trans (if_pos rfl)⟩
    obtain rfl | rfl := hw
    · exact h.disconnect connectionId
    · have hdisconnected := h.disconnect connectionId
      rw [← remove_remove] at hdisconnected
      exact hdisconnected
  | patchSubServices connectionId desired returnUrl redirectUri origin =>
    obtain ⟨-, -, record, hrecord, descriptor, hdescriptor, -, -, -, -, manifest, hmanifest, -,
      hend⟩ := patchSubServices_eq_ok.mp hok
    have hid := id_of_getProvider hdescriptor
    have hpatched := consistent_of_patched hready hrecord hid hmanifest
    refine ⟨?_, trivial⟩
    split_ifs at hend
    · exact hend ▸ hpatched
    · obtain ⟨-, -, rfl⟩ := startFlow_eq_ok.mp hend
      exact consistent_of_setFlow hpatched (record_patched hrecord) rfl hid

/-- A safe attempt that fails leaves a world that another attempt can start from. -/
theorem ready_of_attempt (hready : call.Ready w) (hsafe : call.Safe deployment chance w)
    (herror : attempt deployment chance w call = .error w') : call.Ready w' := by
  cases call with
  | startConnect =>
    obtain rfl | ⟨flow, hflow, rfl⟩ := eq_of_startConnect_error hsafe herror
    · exact hready
    · refine World.Consistent.setFlow hready ?_
      rintro _ ⟨⟩ connectionId hid
      rw [hflow] at hid
      cases hid
  | startReconnect =>
    obtain rfl | ⟨record, hrecord, flow, hflow, hprovider, rfl⟩ := eq_of_startReconnect_error herror
    · exact hready
    · exact consistent_of_setFlow hready hrecord hflow hprovider
  | completeConnect flowId =>
    obtain rfl | hpopped := popped_of_completeConnect_error herror
    · exact hready
    · exact .inr hpopped
  | disconnect connectionId =>
    obtain rfl | rfl := eq_of_disconnect_error hsafe herror
    · exact hready
    · obtain ⟨w₀, h, rfl | rfl⟩ := hready
      · exact ⟨w₀, h, .inr rfl⟩
      · refine ⟨w₀, h, .inr ?_⟩
        rw [remove_remove]
  | patchSubServices connectionId desired returnUrl redirectUri origin =>
    obtain rfl | ⟨record, hrecord, descriptor, hdescriptor, -, -, -, -, manifest, hmanifest,
      rfl | rfl⟩ := eq_of_patchSubServices_error hsafe herror
    · exact hready
    · exact consistent_of_patched hready hrecord (id_of_getProvider hdescriptor) hmanifest
    · have hid := id_of_getProvider hdescriptor
      exact consistent_of_setFlow (consistent_of_patched hready hrecord hid hmanifest)
        (record_patched hrecord) rfl hid

/-- Where an attempt can return, one can after a safe attempt that fails, unless that has taken the
flow of the call. -/
theorem canReturn_of_attempt (hfresh : chance.Fresh w) (hsafe : call.Safe deployment chance w)
    (herror : attempt deployment chance w call = .error w') (hcan : call.CanReturn deployment w) :
    call.CanReturn deployment w' ∨ call.Popped w' := by
  cases call with
  | startConnect =>
    obtain rfl | ⟨flow, hflow, rfl⟩ := eq_of_startConnect_error hsafe herror
    · exact .inl hcan
    · obtain ⟨chance', hfresh', w₁, hok⟩ := hcan
      refine .inl ⟨chance', fresh_setFlow hfresh' ?_, startConnect_of_rows hok rfl rfl⟩
      rintro _ ⟨⟩ heq
      rw [hflow] at heq
      cases heq
  | startReconnect =>
    obtain rfl | ⟨record, hrecord, flow, hflow, -, rfl⟩ := eq_of_startReconnect_error herror
    · exact .inl hcan
    · obtain ⟨chance', hfresh', w₁, hok⟩ := hcan
      refine .inl ⟨chance', fresh_setFlow hfresh' ?_, startReconnect_of_rows hok rfl⟩
      rintro _ ⟨⟩
      rw [hflow]
      exact ne_of_fresh hfresh' hrecord
  | completeConnect flowId =>
    obtain rfl | hpopped := popped_of_completeConnect_error herror
    · exact .inl hcan
    · exact .inr hpopped
  | disconnect connectionId =>
    obtain rfl | rfl := eq_of_disconnect_error hsafe herror
    · exact .inl hcan
    · obtain ⟨chance', hfresh', w₁, hok⟩ := hcan
      obtain ⟨hloads, record, hrecord, hkind, happlies, hdeletes, -⟩ := disconnect_eq_ok.mp hok
      exact .inl ⟨chance', hfresh', _,
        disconnect_eq_ok.mpr ⟨hloads, record, hrecord, hkind, happlies, hdeletes, rfl⟩⟩
  | patchSubServices connectionId desired returnUrl redirectUri origin =>
    obtain rfl | ⟨record, hrecord, descriptor, hdescriptor, hurl, hvalid, hconsent, horigin,
      manifest, -, hw⟩ := eq_of_patchSubServices_error hsafe herror
    · exact .inl hcan
    · have hpatched : chance.Fresh (patched record (record.toggle descriptor desired) manifest w) :=
        fresh_patched hfresh hrecord
      have hagain : (patched record (record.toggle descriptor desired) manifest w).record
          connectionId = some (patchedRecord record descriptor desired) := record_patched hrecord
      refine .inl ⟨{ chance with loads := true, persists := .lands, puts := .lands }, ?_, ?_⟩
      · obtain rfl | rfl := hw
        · exact hpatched
        · refine fresh_setFlow hpatched ?_
          rintro _ ⟨⟩
          exact ne_of_fresh hfresh hrecord
      · obtain rfl | rfl := hw
        · exact patchSubServices_again hagain hdescriptor hurl hvalid hconsent horigin rfl rfl rfl
        · exact patchSubServices_again hagain hdescriptor hurl hvalid hconsent horigin rfl rfl rfl

/-! ## Retries -/

variable {t : Trial}

/-- What holds of the retries of a call. -/
structure Trial.Inv (deployment : Deployment) (call : Call) (t : Trial) : Prop where
  returned : t.returned = true → t.world.Consistent ∧ call.Gone t.world
  ready : t.returned = false → call.Ready t.world
  canReturn : t.returned = false → call.CanReturn deployment t.start →
    call.CanReturn deployment t.world ∨ call.Popped t.world

theorem Trial.Inv.next {t' : Trial} (h : t.Inv deployment call) (hfresh : chance.Fresh t.world)
    (hsafe : call.Safe deployment chance t.world)
    (hnext : t.next deployment call chance = some t') : t'.Inv deployment call := by
  rw [Trial.next] at hnext
  split_ifs at hnext with hreturned
  have hfalse := (Bool.not_eq_true _).mp hreturned
  split at hnext
  · next world hok =>
    obtain rfl := Option.some.inj hnext
    exact ⟨fun _ => consistent_of_attempt (h.ready hfalse) hfresh hok, nofun, nofun⟩
  · next world herror =>
    obtain rfl := Option.some.inj hnext
    refine ⟨fun htrue => absurd htrue hreturned,
      fun _ => ready_of_attempt (h.ready hfalse) hsafe herror, fun _ hcan => ?_⟩
    obtain hcan | hpopped := h.canReturn hfalse hcan
    · exact canReturn_of_attempt hfresh hsafe herror hcan
    · obtain ⟨world', herror', -, -, hpopped'⟩ :
          ∃ w', attempt deployment chance t.world call = .error w' ∧ _ := attempt_of_popped hpopped
      obtain rfl := Except.error.inj (herror'.symm.trans herror)
      exact .inr hpopped'

/-- As long as each attempt is safe, the record and the managed entries of each connection agree
once an attempt has returned; and a call that could return still can, unless its flow has been
taken, where every attempt raises and leaves records and manifest alone. -/
theorem retries_agree (h : ((retries deployment call).when fun t chance =>
      call.Safe deployment chance t.world).Reachable t) :
    (t.returned = true → (∀ connectionId subId, subId ∈ t.world.enabled connectionId ↔
      subId ∈ managedSubs t.world.manifest connectionId) ∧ call.Gone t.world) ∧
    (t.returned = false → call.CanReturn deployment t.start →
      call.CanReturn deployment t.world ∨ call.Popped t.world) ∧
    (call.Popped t.world → ∀ chance, ∃ w', attempt deployment chance t.world call = .error w' ∧
      w'.rows = t.world.rows ∧ w'.manifest = t.world.manifest ∧ call.Popped w') := by
  have hinv : t.Inv deployment call := by
    refine h.invariant ?_ ?_
    · rintro t ⟨hconsistent, hworld, hreturned⟩
      refine ⟨fun htrue => ?_, fun _ => ?_, fun _ hcan => .inl ?_⟩
      · rw [hreturned] at htrue
        cases htrue
      · rw [hworld]
        exact Call.ready_of_consistent hconsistent
      · rwa [hworld]
    · rintro t chance t' hinv ⟨hsafe, hfresh, hnext⟩
      exact hinv.next hfresh hsafe hnext
  refine ⟨fun hreturned => ?_, hinv.canReturn, fun hpopped chance => attempt_of_popped hpopped⟩
  obtain ⟨hconsistent, hgone⟩ := hinv.returned hreturned
  exact ⟨hconsistent.agrees, hgone⟩

end

/-! ## Runs of a deployment -/

/-- A deployment without connections. -/
def emptyWorld : World where
  rows := []
  manifest := []
  flows _ := none

theorem emptyWorld_consistent : emptyWorld.Consistent where
  agrees _ _ := iff_of_false List.not_mem_nil List.not_mem_nil
  titled _ hentry := absurd hentry List.not_mem_nil
  flows _ _ hflow := by cases hflow

/-- A provider without and one with an OAuth flow. -/
def vendors : Deployment where
  providers :=
    [{ id := "notes", kind := .none, subServices := [("pages", { mcpServer := some "http" })] },
      { id := "mail"
        kind := .oauth
        subServices := [("inbox", { mcpServer := some "http" }),
          ("send", { scopes := ["send"], mcpServer := some "http" })] }]
  checkAlias _ := true
  redirectUriAllowed _ := true
  allowlist := ["https://app.example"]

/-- An attempt that meets no failure. -/
def smooth : Chance where
  connectionId := "c1"
  flowId := "f1"
  tokens := some ⟨[], some "refresh"⟩
  loads := true
  pops := .lands
  persists := .lands
  applies := .lands
  deletes := .lands
  puts := .lands

def connectNotes : Call :=
  .startConnect "notes" "home" ["pages"] [] "/" "https://app.example/callback" "https://app.example"

def notesWorld : World where
  rows :=
    [{ connectionId := "c1"
       providerId := "notes"
       kind := .none
       aliasName := "home"
       enabledSubServices := ["pages"] }]
  manifest := [⟨"notes_pages_home", some ⟨"c1", "notes", "pages"⟩⟩]
  flows _ := none

theorem smooth_fresh (reply : Reply) :
    ({ smooth with persists := reply } : Chance).Fresh emptyWorld :=
  ⟨fun _ hrow => absurd hrow List.not_mem_nil, fun _ _ hflow => by cases hflow⟩

/-- The record of a connect cannot be written at first. -/
theorem retries_agree_of_connect : ∃ t, ((retries vendors connectNotes).when fun t chance =>
      connectNotes.Safe vendors chance t.world).Reachable t ∧ t.returned = true ∧
    t.world.enabled "c1" = ["pages"] ∧
    ∀ connectionId subId, subId ∈ t.world.enabled connectionId ↔
      subId ∈ managedSubs t.world.manifest connectionId := by
  have hfirst : connectNotes.Safe vendors { smooth with persists := .fails } emptyWorld :=
    fun _ _ _ => ⟨nofun, nofun⟩
  have hsecond : connectNotes.Safe vendors smooth emptyWorld := by
    rintro _ ⟨⟩ -
    exact ⟨nofun, fun _ => ⟨rfl, rfl⟩⟩
  have hstart : ((retries vendors connectNotes).when fun t chance =>
      connectNotes.Safe vendors chance t.world).Reachable ⟨emptyWorld, emptyWorld, false⟩ :=
    .of_init ⟨emptyWorld_consistent, rfl, rfl⟩
  have hend : ((retries vendors connectNotes).when fun t chance =>
      connectNotes.Safe vendors chance t.world).Reachable ⟨emptyWorld, notesWorld, true⟩ :=
    (hstart.take { smooth with persists := .fails } ⟨hfirst, smooth_fresh .fails, rfl⟩).take smooth
      ⟨hsecond, smooth_fresh .lands, rfl⟩
  exact ⟨_, hend, rfl, rfl, ((retries_agree hend).1 rfl).1⟩

/-- A flow that waits for its callback. -/
def waitingWorld : World :=
  emptyWorld.setFlow "f1" (some
    { providerId := "mail"
      aliasName := "work"
      requestedScopes := []
      enabledSubServices := ["inbox"]
      redirectUri := "https://app.example/callback"
      operation := .connect })

/-- The exchange of the code fails once, and no retry returns. -/
theorem popped_by_exchange : ∃ t, (retries vendors (.completeConnect "f1")).Reachable t ∧
    t.returned = false ∧ (Call.completeConnect "f1").CanReturn vendors t.start ∧
    ∀ t', (retries vendors (.completeConnect "f1")).Run t t' → t'.returned = false := by
  have hconsistent : waitingWorld.Consistent := by
    refine emptyWorld_consistent.setFlow ?_
    rintro _ ⟨⟩
    nofun
  have hfresh : ∀ tokens, ({ smooth with tokens := tokens } : Chance).Fresh waitingWorld := by
    intro tokens
    refine fresh_setFlow (smooth_fresh .lands) ?_
    rintro _ ⟨⟩
    nofun
  have hstart : (retries vendors (.completeConnect "f1")).Reachable
      ⟨waitingWorld, waitingWorld, false⟩ := .of_init ⟨hconsistent, rfl, rfl⟩
  have hfailed : (retries vendors (.completeConnect "f1")).Reachable
      ⟨waitingWorld, waitingWorld.setFlow "f1" none, false⟩ :=
    hstart.take { smooth with tokens := none } ⟨hfresh none, rfl⟩
  refine ⟨_, hfailed, rfl, ⟨smooth, hfresh _, _, rfl⟩, fun t' hrun => ?_⟩
  have hpopped : t'.world.flows "f1" = none ∧ t'.returned = false := by
    refine System.Run.invariant (p := fun t => t.world.flows "f1" = none ∧ t.returned = false) ?_
      hrun ⟨rfl, rfl⟩
    rintro t chance t' ⟨hpopped, hreturned⟩ ⟨-, hnext⟩
    obtain ⟨w', herror, -, -, hpopped'⟩ :
        ∃ w', attempt vendors chance t.world (.completeConnect "f1") = .error w' ∧ _ :=
      completeConnect_of_popped hpopped
    rw [Trial.next, hreturned, herror] at hnext
    obtain rfl := Option.some.inj hnext
    exact ⟨hpopped', rfl⟩
  exact hpopped.2

/-- A patch that takes one sub-service off and asks for another one, whose reconciliation fails: the
retry returns, and the manifest still has what was taken off. -/
example : ([{ smooth with applies := .fails }, smooth].foldlM
      (Trial.next vendors (.patchSubServices "c2" ["send"] "/" "https://app.example/callback"
        "https://app.example"))
      (.mk emptyWorld
        { rows := [⟨"c2", "mail", .oauth, "work", ["inbox"], [], some "refresh"⟩]
          manifest := [⟨"mail_inbox_work", some ⟨"c2", "mail", "inbox"⟩⟩]
          flows := fun _ => none } false)).any
    (fun t => decide (t.returned = true ∧ t.world.enabled "c2" = [] ∧
      managedSubs t.world.manifest "c2" = ["inbox"])) = true := by
  decide +kernel

end TaiSkeleton.Connectors.Service
