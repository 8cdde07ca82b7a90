import TaiSkeleton.Lib.Except
import TaiSkeleton.Lib.Json
import TaiSkeleton.Lib.Outputs
import TaiSkeleton.Lib.Split
import TaiSkeleton.Lib.Dict
import TaiSkeleton.Lib.Machine
import TaiSkeleton.Lib.Munch
import TaiSkeleton.Lib.Run
import TaiSkeleton.Lib.ReadCommitted
import TaiSkeleton.Authz.TokenFree.Source
import TaiSkeleton.Authz.TokenFree.Lexer
import TaiSkeleton.Authz.TokenFree.Ast
import TaiSkeleton.Authz.TokenFree.Parser
import TaiSkeleton.Authz.TokenFree.LexerFacts
import TaiSkeleton.Authz.TokenFree.AcceptedTokens
import TaiSkeleton.Authz.TokenFree.JqLexer
import TaiSkeleton.Authz.TokenFree.LexRegions
import TaiSkeleton.Authz.TokenFree.LexAgreement
import TaiSkeleton.Authz.TokenFree.Taint
import TaiSkeleton.Authz.TokenFree.JqSemantics
import TaiSkeleton.Authz.TokenFree.NonInterference
import TaiSkeleton.AccessControl.PathCanon
import TaiSkeleton.AccessControl.RequestUrl
import TaiSkeleton.App.RouteRegistry
import TaiSkeleton.AccessControl.RoleGate
import TaiSkeleton.AccessControl.Settings
import TaiSkeleton.AccessControl.Policy
import TaiSkeleton.AccessControl.RoleGrants
import TaiSkeleton.App.Router
import TaiSkeleton.AccessControl.FencedAudit
import TaiSkeleton.AccessControl.Verifier
import TaiSkeleton.AccessControl.Backend
import TaiSkeleton.AccessControl.Middleware
import TaiSkeleton.AccessControl.Admission
import TaiSkeleton.AccessControl.AnonymousAccess
import TaiSkeleton.AccessControl.OwnedKeys
import TaiSkeleton.AccessControl.PatternSample
import TaiSkeleton.AccessControl.Projection
import TaiSkeleton.Authz.Check
import TaiSkeleton.Authz.TemplateSegments
import TaiSkeleton.Authz.PathArguments
import TaiSkeleton.Authz.Containment
import TaiSkeleton.Authz.AgentRun
import TaiSkeleton.AccessControl.ProjectionGate
import TaiSkeleton.Versioning.Store
import TaiSkeleton.Versioning.Invariant
import TaiSkeleton.Versioning.History
import TaiSkeleton.Conversations.Records
import TaiSkeleton.Conversations.StatusIndex
import TaiSkeleton.Conversations.SplitMessage
import TaiSkeleton.Conversations.Delivery
import TaiSkeleton.Conversations.LifeCycle
import TaiSkeleton.Conversations.ApiDelivery
import TaiSkeleton.Conversations.SendLedger
import TaiSkeleton.Conversations.ChannelDelivery
import TaiSkeleton.Conversations.SplitResume
import TaiSkeleton.Conversations.TokenBucket
import TaiSkeleton.Conversations.IdleBuckets
import TaiSkeleton.Conversations.AdmissionRate
import TaiSkeleton.Conversations.Inbound
import TaiSkeleton.Conversations.InboundOnce
import TaiSkeleton.Lib.SortedSet
import TaiSkeleton.Lib.TtlCache
import TaiSkeleton.Lib.AsyncLock
import TaiSkeleton.Lib.RunReplace
import TaiSkeleton.Lib.Numerals
import TaiSkeleton.Lib.Expiring
import TaiSkeleton.Lib.Counting
import TaiSkeleton.Interactions.Store
import TaiSkeleton.Interactions.Keys
import TaiSkeleton.Interactions.Counts
import TaiSkeleton.Interactions.Listing
import TaiSkeleton.Interactions.Stored
import TaiSkeleton.Interactions.AskUser
import TaiSkeleton.Interactions.AskInvariant
import TaiSkeleton.Interactions.Abandoned
import TaiSkeleton.Interactions.Inbox
import TaiSkeleton.Interactions.InboxEvents
import TaiSkeleton.Interactions.InboxConverges
import TaiSkeleton.Interactions.InboxRuns
import TaiSkeleton.Versioning.Operations
import TaiSkeleton.Versioning.Tables
import TaiSkeleton.Versioning.Backup
import TaiSkeleton.Versioning.Serials
import TaiSkeleton.AccessControl.PolicyBody
import TaiSkeleton.AccessControl.PolicyHistory
import TaiSkeleton.AccessControl.ScopeTransactions
import TaiSkeleton.AccessControl.ScopeLocks
import TaiSkeleton.AccessControl.BackedScopes
import TaiSkeleton.AccessControl.KeyOwners
import TaiSkeleton.Lib.Leads
import TaiSkeleton.Tools.Registry
import TaiSkeleton.Tools.Binding
import TaiSkeleton.Authz.Resolver
import TaiSkeleton.Presets.Manager
import TaiSkeleton.App.Lifecycle
import TaiSkeleton.App.ToolLinks
import TaiSkeleton.App.Reloads
import TaiSkeleton.Presets.Ownership
import TaiSkeleton.Presets.Reload
import TaiSkeleton.Presets.Doors
import TaiSkeleton.Presets.DoorsInvariant
import TaiSkeleton.Presets.DoorsAgree
import TaiSkeleton.Lib.Forest
import TaiSkeleton.ToolMeta.Folders
import TaiSkeleton.ToolMeta.FolderForest
import TaiSkeleton.Operations.ToolRuns
import TaiSkeleton.Operations.RunIsolation
import TaiSkeleton.Operations.RunSupervisor
import TaiSkeleton.Operations.OneWayRuns
import TaiSkeleton.Operations.RunSlots
import TaiSkeleton.Conversations.Routes
import TaiSkeleton.Conversations.RouteClaims
import TaiSkeleton.Conversations.RouteRestore
import TaiSkeleton.Conversations.ConcurrencyGate
import TaiSkeleton.Conversations.ThreadQueue
import TaiSkeleton.Conversations.ThreadTurns
import TaiSkeleton.Hooks.TriggerLinks
import TaiSkeleton.Hooks.LinkPairs
import TaiSkeleton.Hooks.LinkRestore
import TaiSkeleton.AccessControl.RoleAssignment
import TaiSkeleton.AccessControl.AssignedRoles
import TaiSkeleton.AccessControl.DisabledMarker
import TaiSkeleton.Lib.VersionedCache
import TaiSkeleton.AccessControl.PolicyVersions
import TaiSkeleton.AccessControl.FreshDecisions
import TaiSkeleton.Authz.ExecutionKeys
import TaiSkeleton.Authz.RevokedMints
import TaiSkeleton.Lib.Leases
import TaiSkeleton.SubMcp.Router
import TaiSkeleton.SubMcp.Service
import TaiSkeleton.SubMcp.FollowsStore
import TaiSkeleton.Connectors.TokenStore
import TaiSkeleton.Connectors.CacheFence
import TaiSkeleton.App.WorkerBus
import TaiSkeleton.App.Subscription
import TaiSkeleton.App.FleetConvergence
import TaiSkeleton.Connectors.Resolver
import TaiSkeleton.Connectors.Rotation
import TaiSkeleton.Connectors.ConnectionService
import TaiSkeleton.Connectors.ManagedEntries
import TaiSkeleton.Connectors.ManifestWriter
import TaiSkeleton.Connectors.ConsistentWorlds
import TaiSkeleton.Connectors.ServiceAttempts
import TaiSkeleton.Connectors.ServiceRetries
import TaiSkeleton.Config.SecretSeal
import TaiSkeleton.Config.Service
import TaiSkeleton.Config.PostPersist
import TaiSkeleton.Template.ResourceManager
import TaiSkeleton.Template.FreshRenders
import TaiSkeleton.Config.SealWalk
import TaiSkeleton.Config.SealTransparency
import TaiSkeleton.Lib.PercentFormat
import TaiSkeleton.Connectors.MetaLogRedactor
import TaiSkeleton.Connectors.RedactorGuard
import TaiSkeleton.Connectors.LoggedData
import TaiSkeleton.Connectors.ScannedText
import TaiSkeleton.Connectors.MaskedBodies
import TaiSkeleton.Connectors.RedactedAlike
import TaiSkeleton.Connectors.ObjectBodies
import TaiSkeleton.Connectors.RedactorLoops
import TaiSkeleton.Lib.PythonText
import TaiSkeleton.Lib.Base64
import TaiSkeleton.Lib.JsonText
import TaiSkeleton.Lib.JsonParser
import TaiSkeleton.Connectors.OAuthState
import TaiSkeleton.Tools.BakedTools
import TaiSkeleton.Tools.BakedLinks
import TaiSkeleton.Tools.BakedBinding
import TaiSkeleton.Tools.BakedDispatch
import TaiSkeleton.Marketplace.ManifestPatch
import TaiSkeleton.Marketplace.PatchInverse
import TaiSkeleton.Marketplace.Installer
import TaiSkeleton.Marketplace.PackageSet
import TaiSkeleton.Marketplace.AllOrNothing
import TaiSkeleton.Hooks.FanOut
import TaiSkeleton.Hooks.FanOutIsolation
import TaiSkeleton.Hooks.Registry
import TaiSkeleton.Hooks.RegistryShows
import TaiSkeleton.Hooks.RegistryRuns
import TaiSkeleton.Backup.Webhooks
import TaiSkeleton.Backup.WebhookRounds
import TaiSkeleton.Backup.WebhookLocks
import TaiSkeleton.Backup.WebhooksRestored
import TaiSkeleton.Middleware.TemplatedPath
import TaiSkeleton.Middleware.PathValues
import TaiSkeleton.Middleware.PathOverlap
import TaiSkeleton.Middleware.IpAddress
import TaiSkeleton.Middleware.AddressTexts
import TaiSkeleton.Middleware.ClientBucket
import TaiSkeleton.Middleware.RateLimit
import TaiSkeleton.Middleware.CountedRequests
import TaiSkeleton.Middleware.RateWindows
import TaiSkeleton.Middleware.BodyLimit
