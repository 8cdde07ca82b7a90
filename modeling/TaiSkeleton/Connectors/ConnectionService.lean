import Mathlib.Data.List.Dedup
import Mathlib.Logic.Function.Basic
import TaiSkeleton.Lib.Except

/-!
# The connection service

`start_connect`, `start_reconnect`, `complete_connect`, `disconnect` and `patch_sub_services` write
the record of a connection and its managed entries in the manifest in separate steps. A step can
raise before or after it has taken effect. One attempt of one call runs at a time.
-/

namespace TaiSkeleton.Connectors.Service

open Lib

/-! ## Providers -/

/-- The `kind` of a provider and of a record. -/
inductive ConnectorKind where
  | none
  | oauth
deriving DecidableEq

/-- `SubServiceDescriptor`; of its `mcp_server` the transport. -/
structure SubServiceDescriptor where
  scopes : List String := []
  mcpServer : Option String := none
  entryPoint : Option String := none

/-- `ConfigFieldSpec` -/
structure ConfigFieldSpec where
  key : String
  required : Bool

/-- `ProviderDescriptor` -/
structure ProviderDescriptor where
  id : String
  kind : ConnectorKind
  subServices : List (String × SubServiceDescriptor)
  pkgManager : Option String := none
  pkgVersion : Option String := none
  configFields : List ConfigFieldSpec := []

/-- `reject_leading_dash` -/
def rejectLeadingDash (value : String) : Bool := value.toList.head? ≠ some '-'

/-- `resolve_mcp_server`, of which the transport is read. -/
def resolveMcpServer (descriptor : ProviderDescriptor) (subServiceId : String) : Option String := do
  let subService ← descriptor.subServices.lookup subServiceId
  match subService.mcpServer with
  | some transport => return transport
  | none =>
    let entryPoint ← subService.entryPoint
    guard (rejectLeadingDash entryPoint ∧ descriptor.pkgVersion.all rejectLeadingDash)
    guard (descriptor.pkgManager = some "uvx" ∨ descriptor.pkgManager = some "npx")
    return "stdio"

/-- `SUPPORTED_MANAGED_TRANSPORTS` -/
def supportedManagedTransports : List String := ["stdio", "http"]

/-- `_validate_sub_services` -/
def validateSubServices (descriptor : ProviderDescriptor) (subServices : List String) : Bool :=
  subServices ≠ [] ∧ ∀ subId ∈ subServices,
    ∃ transport ∈ resolveMcpServer descriptor subId, transport ∈ supportedManagedTransports

/-- The list of a set of strings, sorted. -/
def sortedSet (names : List String) : List String :=
  names.dedup.mergeSort fun a b => decide (a ≤ b)

/-- The scopes of a sub-service. -/
def ProviderDescriptor.scopes (descriptor : ProviderDescriptor) (subId : String) : List String :=
  ((descriptor.subServices.lookup subId).map SubServiceDescriptor.scopes).getD []

/-- `_scopes_for` -/
def scopesFor (descriptor : ProviderDescriptor) (subServices : List String) : List String :=
  sortedSet (subServices.flatMap descriptor.scopes)

/-- `_validate_config_values` -/
def validateConfigValues (descriptor : ProviderDescriptor) (configValues : List (String × String)) :
    Bool :=
  (∀ value ∈ configValues, ∃ field ∈ descriptor.configFields, field.key = value.1) ∧
  ∀ field ∈ descriptor.configFields, field.required →
    (configValues.lookup field.key).getD "" ≠ ""

/-- A character of `_RETURN_URL_RE`. -/
def isReturnUrlChar (c : Char) : Bool :=
  c.isAlphanum ∨ c ∈ ['_', '-', '.', '/', '?', '=', '&', '%']

/-- `_validate_return_url` -/
def validateReturnUrl (value : String) : Bool :=
  match value.toList with
  | '/' :: '/' :: _ => false
  | '/' :: rest => rest.all isReturnUrlChar
  | _ => false

/-! ## Records, flows and the manifest -/

/-- What the service reads of a `ConnectionRecord`. -/
structure ConnectionRecord where
  connectionId : String
  providerId : String
  kind : ConnectorKind
  aliasName : String
  enabledSubServices : List String
  grantedScopes : List String := []
  refreshToken : Option String := none
deriving DecidableEq

/-- `FlowOperation` -/
inductive FlowOperation where
  | connect
  | reconnect
  | toggleSubserviceOn
deriving DecidableEq

/-- `OAuthFlowState` -/
structure OAuthFlowState where
  providerId : String
  aliasName : String
  requestedScopes : List String
  enabledSubServices : List String
  redirectUri : String
  operation : FlowOperation
  reconnectConnectionId : Option String := none
deriving DecidableEq

/-- `ConnectorRef` -/
structure ConnectorRef where
  connectionId : String
  providerId : String
  subService : String
deriving DecidableEq

/-- An entry of the manifest; one without a reference is written by hand. -/
structure ManifestEntry where
  title : String
  managed : Option ConnectorRef
deriving DecidableEq

/-- `managed_title` -/
def managedTitle (providerId subService aliasName : String) : String :=
  providerId ++ "_" ++ subService ++ "_" ++ aliasName

/-- `_build_entry`; it raises where there is no server. -/
def buildEntry (descriptor : ProviderDescriptor) (aliasName connectionId subId : String) :
    Option ManifestEntry :=
  (resolveMcpServer descriptor subId).map fun _ =>
    { title := managedTitle descriptor.id subId aliasName
      managed := some ⟨connectionId, descriptor.id, subId⟩ }

/-- `add_managed_entries`: a title that the connection owns is left in place, and one that it does
not own raises. -/
def addManagedEntries (descriptor : ProviderDescriptor) (enabledSubServices : List String)
    (aliasName connectionId : String) (entries : List ManifestEntry) :
    Option (List ManifestEntry) :=
  enabledSubServices.foldlM
    (fun added subId => do
      let entry ← buildEntry descriptor aliasName connectionId subId
      match entries.reverse.find? fun current => current.title = entry.title with
      | some current =>
        guard (∃ managed ∈ current.managed, managed.connectionId = connectionId)
        return added
      | none => return added ++ [entry])
    entries

/-- The entry is one of the connection, of the given sub-services where some are given. -/
def ManifestEntry.ownedBy (entry : ManifestEntry) (connectionId : String)
    (subServices : Option (List String)) : Prop :=
  ∃ managed ∈ entry.managed, managed.connectionId = connectionId ∧
    ∀ subSet ∈ subServices, managed.subService ∈ subSet

instance (entry : ManifestEntry) (connectionId : String) (subServices : Option (List String)) :
    Decidable (entry.ownedBy connectionId subServices) :=
  inferInstanceAs (Decidable (∃ _ ∈ entry.managed, _))

/-- `remove_managed_entries` -/
def removeManagedEntries (connectionId : String) (subServices : Option (List String))
    (entries : List ManifestEntry) : List ManifestEntry :=
  entries.filter fun entry => ¬entry.ownedBy connectionId subServices

/-- `reconcile`: a removal and an append in one mutator. -/
def reconcile (descriptor : ProviderDescriptor) (aliasName connectionId : String)
    (toRemove toAdd : List String) (entries : List ManifestEntry) : Option (List ManifestEntry) :=
  addManagedEntries descriptor toAdd aliasName connectionId
    (removeManagedEntries connectionId (some toRemove) entries)

/-! ## Steps -/

/-- The rows of the token store, the `mcp` section of the manifest, and the flows that wait for
their callback. -/
structure World where
  rows : List ConnectionRecord
  manifest : List ManifestEntry
  flows : String → Option OAuthFlowState

/-- A write takes effect, raises without an effect, or raises after it has taken effect. -/
inductive Reply where
  | lands
  | fails
  | landsAndRaises
deriving DecidableEq

/-- `TokenResponse` -/
structure TokenResponse where
  grantedScopes : List String
  refreshToken : Option String

/-- What an attempt meets: the identifiers that it draws, the answer of the provider where the
exchange does not fail, whether its record can be read, and how its writes end. -/
structure Chance where
  connectionId : String
  flowId : String
  tokens : Option TokenResponse
  loads : Bool
  pops : Reply
  persists : Reply
  applies : Reply
  deletes : Reply
  puts : Reply

/-- The providers and the checks of the deployment. -/
structure Deployment where
  providers : List ProviderDescriptor
  checkAlias : String → Bool
  redirectUriAllowed : String → Bool
  allowlist : List String

/-- `get_provider` -/
def Deployment.getProvider (deployment : Deployment) (providerId : String) :
    Option ProviderDescriptor :=
  deployment.providers.find? fun descriptor => descriptor.id = providerId

namespace World

/-- The record of a connection. -/
def record (w : World) (connectionId : String) : Option ConnectionRecord :=
  w.rows.find? fun row => row.connectionId = connectionId

/-- The row of a connection is replaced. -/
def replace (record : ConnectionRecord) (w : World) : World :=
  { w with rows := w.rows.map fun row =>
      if row.connectionId = record.connectionId then record else row }

/-- The row of a connection is deleted. -/
def delete (connectionId : String) (w : World) : World :=
  { w with rows := w.rows.filter fun row => row.connectionId ≠ connectionId }

/-- The flow of an identifier. -/
def setFlow (flowId : String) (flow : Option OAuthFlowState) (w : World) : World :=
  { w with flows := Function.update w.flows flowId flow }

end World

/-- One write. -/
def perform (reply : Reply) (write : World → World) (w : World) : Except World World :=
  match reply with
  | .lands => .ok (write w)
  | .fails => .error w
  | .landsAndRaises => .error (write w)

/-- `_persist` with `create_only`: the identifier is new, and so is the alias for the provider. -/
def persistNew (reply : Reply) (record : ConnectionRecord) (w : World) : Except World World :=
  if ∃ row ∈ w.rows, row.connectionId = record.connectionId ∨
      row.providerId = record.providerId ∧ row.aliasName = record.aliasName then .error w
  else perform reply (fun w => { w with rows := w.rows ++ [record] }) w

/-- `apply_change`. A mutator that raises leaves the manifest as it is; a reload or a broadcast that
fails raises after the manifest has been persisted. -/
def applyChange (reply : Reply) (mutator : List ManifestEntry → Option (List ManifestEntry))
    (w : World) : Except World World :=
  match mutator w.manifest with
  | some manifest => perform reply (fun w => { w with manifest }) w
  | none => .error w

section

variable (deployment : Deployment)

/-- `_start_flow` -/
def startFlow (origin : String) (flow : OAuthFlowState) (chance : Chance) (w : World) :
    Except World World := do
  ensure (origin ∈ deployment.allowlist) w
  perform chance.puts (World.setFlow chance.flowId (some flow)) w

/-- `_connect_no_auth` -/
def connectNoAuth (descriptor : ProviderDescriptor) (aliasName : String)
    (enabledSubServices : List String) (configValues : List (String × String)) (chance : Chance)
    (w : World) : Except World World := do
  ensure (validateConfigValues descriptor configValues) w
  let w' ← persistNew chance.persists
    { connectionId := chance.connectionId
      providerId := descriptor.id
      kind := .none
      aliasName := aliasName
      enabledSubServices := enabledSubServices } w
  applyChange chance.applies
    (addManagedEntries descriptor enabledSubServices aliasName chance.connectionId) w'

/-- `start_connect` -/
def startConnect (providerId aliasName : String) (enabledSubServices : List String)
    (configValues : List (String × String)) (returnUrl redirectUri origin : String)
    (chance : Chance) (w : World) : Except World World := do
  let some descriptor := deployment.getProvider providerId | .error w
  ensure (deployment.checkAlias aliasName ∧ validateSubServices descriptor enabledSubServices ∧
    validateReturnUrl returnUrl) w
  match descriptor.kind with
  | .none => connectNoAuth descriptor aliasName enabledSubServices configValues chance w
  | .oauth =>
    ensure configValues.isEmpty w
    startFlow deployment origin
      { providerId := descriptor.id
        aliasName := aliasName
        requestedScopes := scopesFor descriptor enabledSubServices
        enabledSubServices := enabledSubServices
        redirectUri := redirectUri
        operation := .connect } chance w

/-- `start_reconnect` -/
def startReconnect (connectionId : String) (enabledSubServices : List String)
    (returnUrl redirectUri origin : String) (chance : Chance) (w : World) :
    Except World World := do
  ensure chance.loads w
  let some record := w.record connectionId | .error w
  ensure (record.kind ≠ .none) w
  let some descriptor := deployment.getProvider record.providerId | .error w
  ensure (validateSubServices descriptor enabledSubServices ∧ validateReturnUrl returnUrl) w
  startFlow deployment origin
    { providerId := descriptor.id
      aliasName := record.aliasName
      requestedScopes := scopesFor descriptor enabledSubServices
      enabledSubServices := enabledSubServices
      redirectUri := redirectUri
      operation := .reconnect
      reconnectConnectionId := some connectionId } chance w

/-- The record that a first `complete_connect` creates. -/
def connectedRecord (flow : OAuthFlowState) (tokens : TokenResponse) (chance : Chance) :
    ConnectionRecord where
  connectionId := chance.connectionId
  providerId := flow.providerId
  kind := .oauth
  aliasName := flow.aliasName
  enabledSubServices := flow.enabledSubServices
  grantedScopes :=
    if tokens.grantedScopes.isEmpty then flow.requestedScopes else tokens.grantedScopes
  refreshToken := tokens.refreshToken

/-- The record that a reconnect or a toggle leaves. -/
def reconnectedRecord (flow : OAuthFlowState) (tokens : TokenResponse)
    (record : ConnectionRecord) : ConnectionRecord :=
  { record with
    refreshToken := if tokens.refreshToken.getD "" = "" then record.refreshToken
      else tokens.refreshToken
    grantedScopes :=
      if tokens.grantedScopes.isEmpty then flow.requestedScopes else tokens.grantedScopes
    enabledSubServices := sortedSet flow.enabledSubServices }

/-- What a set has more than another one. -/
def minus (names others : List String) : List String := names.filter (· ∉ others)

/-- `_complete_reconnect_or_toggle` -/
def completeReconnectOrToggle (flow : OAuthFlowState) (descriptor : ProviderDescriptor)
    (tokens : TokenResponse) (chance : Chance) (w : World) : Except World World := do
  let some connectionId := flow.reconnectConnectionId | .error w
  ensure chance.loads w
  let some record := w.record connectionId | .error w
  let newEnabled := sortedSet flow.enabledSubServices
  let toAdd := minus newEnabled record.enabledSubServices
  let toRemove := minus record.enabledSubServices newEnabled
  let w' ← perform chance.persists (World.replace (reconnectedRecord flow tokens record)) w
  if toRemove = [] ∧ toAdd = [] then
    return w'
  else
    applyChange chance.applies
      (reconcile descriptor record.aliasName connectionId toRemove toAdd) w'

/-- `complete_connect`. The flow is there for one attempt. -/
def completeConnect (flowId : String) (chance : Chance) (w : World) : Except World World := do
  let w' ← perform chance.pops (World.setFlow flowId none) w
  let some flow := w.flows flowId | .error w'
  let some descriptor := deployment.getProvider flow.providerId | .error w'
  ensure (deployment.redirectUriAllowed flow.redirectUri) w'
  let some tokens := chance.tokens | .error w'
  match flow.operation with
  | .connect =>
    ensure (tokens.refreshToken.getD "" ≠ "") w'
    let w'' ← persistNew chance.persists (connectedRecord flow tokens chance) w'
    applyChange chance.applies
      (addManagedEntries descriptor flow.enabledSubServices flow.aliasName chance.connectionId) w''
  | _ => completeReconnectOrToggle flow descriptor tokens chance w'

/-- `disconnect`; the revocation never raises. -/
def disconnect (connectionId : String) (chance : Chance) (w : World) : Except World World := do
  ensure chance.loads w
  let some record := w.record connectionId | .error w
  ensure (record.kind = .none ∨ record.refreshToken.isSome) w
  let w' ← applyChange chance.applies
    (fun entries => some (removeManagedEntries connectionId none entries)) w
  perform chance.deletes (World.delete connectionId) w'

/-- What `patch_sub_services` makes of the sub-services of a record. -/
structure Toggle where
  toRemove : List String
  canInline : List String
  needsConsent : List String
  newEnabled : List String

/-- The manifest is left as it is. -/
def Toggle.Still (toggle : Toggle) : Prop := toggle.toRemove = [] ∧ toggle.canInline = []

instance (toggle : Toggle) : Decidable toggle.Still := inferInstanceAs (Decidable (_ ∧ _))

/-- A sub-service is added without a consent. -/
def ConnectionRecord.inlines (record : ConnectionRecord) (descriptor : ProviderDescriptor)
    (subId : String) : Bool :=
  record.kind = .none ∨ descriptor.scopes subId ⊆ record.grantedScopes

/-- What is toggled on is added at once or after a consent. -/
def ConnectionRecord.toggle (record : ConnectionRecord) (descriptor : ProviderDescriptor)
    (desired : List String) : Toggle :=
  let current := record.enabledSubServices
  let toRemove := minus current desired
  let toAdd := minus desired.dedup current
  let canInline := toAdd.filter (record.inlines descriptor)
  { toRemove := toRemove
    canInline := canInline
    needsConsent := toAdd.filter fun subId => !record.inlines descriptor subId
    newEnabled := sortedSet (minus current toRemove ++ canInline) }

/-- The flow that a patch starts. It carries the sub-services that are enabled and those that need
the consent. -/
def consentFlow (descriptor : ProviderDescriptor) (record : ConnectionRecord) (toggle : Toggle)
    (connectionId redirectUri : String) : OAuthFlowState :=
  let consentSubs := sortedSet (toggle.newEnabled ++ toggle.needsConsent)
  { providerId := descriptor.id
    aliasName := record.aliasName
    requestedScopes := scopesFor descriptor consentSubs
    enabledSubServices := consentSubs
    redirectUri := redirectUri
    operation := .toggleSubserviceOn
    reconnectConnectionId := some connectionId }

/-- `patch_sub_services` -/
def patchSubServices (connectionId : String) (desired : List String)
    (returnUrl redirectUri origin : String) (chance : Chance) (w : World) :
    Except World World := do
  ensure (validateReturnUrl returnUrl) w
  ensure chance.loads w
  let some record := w.record connectionId | .error w
  let some descriptor := deployment.getProvider record.providerId | .error w
  ensure (validateSubServices descriptor desired) w
  ensure (¬(record.enabledSubServices ⊆ desired ∧ desired ⊆ record.enabledSubServices)) w
  let toggle := record.toggle descriptor desired
  ensure (toggle.needsConsent = [] ∨ origin ∈ deployment.allowlist) w
  let w' ← perform chance.persists
    (World.replace { record with enabledSubServices := toggle.newEnabled }) w
  let w'' ← (if toggle.Still then .ok w' else applyChange chance.applies
    (reconcile descriptor record.aliasName connectionId toggle.toRemove toggle.canInline) w')
  if toggle.needsConsent = [] then
    return w''
  else
    startFlow deployment origin (consentFlow descriptor record toggle connectionId redirectUri)
      chance w''

/-! ## Attempts -/

/-- A call with its arguments. -/
inductive Call where
  | startConnect (providerId aliasName : String) (enabledSubServices : List String)
      (configValues : List (String × String)) (returnUrl redirectUri origin : String)
  | startReconnect (connectionId : String) (enabledSubServices : List String)
      (returnUrl redirectUri origin : String)
  | completeConnect (flowId : String)
  | disconnect (connectionId : String)
  | patchSubServices (connectionId : String) (desired : List String)
      (returnUrl redirectUri origin : String)

/-- One attempt of a call: it returns, or it raises, and leaves a world behind. -/
def attempt (chance : Chance) (w : World) : Call → Except World World
  | .startConnect providerId aliasName enabledSubServices configValues returnUrl redirectUri
      origin =>
    startConnect deployment providerId aliasName enabledSubServices configValues returnUrl
      redirectUri origin chance w
  | .startReconnect connectionId enabledSubServices returnUrl redirectUri origin =>
    startReconnect deployment connectionId enabledSubServices returnUrl redirectUri origin chance w
  | .completeConnect flowId => completeConnect deployment flowId chance w
  | .disconnect connectionId => disconnect connectionId chance w
  | .patchSubServices connectionId desired returnUrl redirectUri origin =>
    patchSubServices deployment connectionId desired returnUrl redirectUri origin chance w

end

end TaiSkeleton.Connectors.Service
