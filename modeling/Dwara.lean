import Dwara.Ai.AdapterRequests
import Dwara.Ai.BudgetLedger
import Dwara.Ai.BudgetSpends
import Dwara.Ai.Chat
import Dwara.Ai.Conversation
import Dwara.Ai.Credentials
import Dwara.Ai.Governance
import Dwara.Ai.Guardrails
import Dwara.Ai.Ingress
import Dwara.Ai.IngressAnthropic
import Dwara.Ai.IngressGemini
import Dwara.Ai.OpenAiRequests
import Dwara.Ai.RedactedTexts
import Dwara.Ai.Redaction
import Dwara.Ai.SemanticCache
import Dwara.Ai.SemanticCacheRuns
import Dwara.Ai.SemanticCacheSteps
import Dwara.Ai.ServeAi
import Dwara.Ai.ServeAiPolicy
import Dwara.Ai.Sse
import Dwara.Ai.SseCuts
import Dwara.Ai.SseHoles
import Dwara.Ai.SseSplits
import Dwara.Ai.Stream
import Dwara.Ai.StreamGuardrails
import Dwara.Ai.StreamShape
import Dwara.Ai.StreamTee
import Dwara.Ai.ToolResults
import Dwara.Ai.Types
import Dwara.Ai.Usage
import Dwara.Ai.UsageSettled
import Dwara.Analytics.LiveRows
import Dwara.Analytics.PartitionRuns
import Dwara.Analytics.PartitionSound
import Dwara.Analytics.Rollup
import Dwara.Analytics.RollupRuns
import Dwara.Analytics.Schema
import Dwara.Analytics.Sketch
import Dwara.Config.Gateway
import Dwara.Config.JsonTransform
import Dwara.Config.Masking
import Dwara.Config.MaskingExact
import Dwara.Config.Net
import Dwara.Config.Quotas
import Dwara.Config.Ssrf
import Dwara.CpDp.ControlPlane
import Dwara.CpDp.Counter
import Dwara.CpDp.Fleet
import Dwara.CpDp.FleetConvergence
import Dwara.CpDp.UpgradeExact
import Dwara.CpDp.UpgradeWaves
import Dwara.Dataplane.Admission
import Dwara.Dataplane.AttemptAccounting
import Dwara.Dataplane.AttemptLoop
import Dwara.Dataplane.Balance
import Dwara.Dataplane.BalanceChoose
import Dwara.Dataplane.BalancePick
import Dwara.Dataplane.BreakerAccounting
import Dwara.Dataplane.CacheEnvelope
import Dwara.Dataplane.CacheFidelity
import Dwara.Dataplane.CacheFreshness
import Dwara.Dataplane.CacheGenerations
import Dwara.Dataplane.CacheKeys
import Dwara.Dataplane.CacheLifetimes
import Dwara.Dataplane.CachePurges
import Dwara.Dataplane.CacheReplays
import Dwara.Dataplane.Canary
import Dwara.Dataplane.ContentFilters
import Dwara.Dataplane.FailureAccounting
import Dwara.Dataplane.FirstFrame
import Dwara.Dataplane.FrameCounter
import Dwara.Dataplane.FramePolicing
import Dwara.Dataplane.FrameStreams
import Dwara.Dataplane.Generations
import Dwara.Dataplane.GraphqlCheck
import Dwara.Dataplane.GraphqlFederation
import Dwara.Dataplane.GraphqlLimits
import Dwara.Dataplane.GraphqlScan
import Dwara.Dataplane.GraphqlShape
import Dwara.Dataplane.GrpcWeb
import Dwara.Dataplane.GrpcWebBounds
import Dwara.Dataplane.GrpcWebRoundTrip
import Dwara.Dataplane.HappyEyeballs
import Dwara.Dataplane.Hardening
import Dwara.Dataplane.HardeningSplits
import Dwara.Dataplane.HedgeRace
import Dwara.Dataplane.IdentityHeaders
import Dwara.Dataplane.IdleTunnel
import Dwara.Dataplane.KetamaRing
import Dwara.Dataplane.MaglevTable
import Dwara.Dataplane.PathRewrite
import Dwara.Dataplane.Peers
import Dwara.Dataplane.PeersAdopt
import Dwara.Dataplane.PeersSettle
import Dwara.Dataplane.ProbeBudget
import Dwara.Dataplane.ProbeLoop
import Dwara.Dataplane.QueryOps
import Dwara.Dataplane.QueuedPermits
import Dwara.Dataplane.Replay
import Dwara.Dataplane.ReplayFidelity
import Dwara.Dataplane.RequestBody
import Dwara.Dataplane.Residency
import Dwara.Dataplane.ResponseCache
import Dwara.Dataplane.RoundRobinShare
import Dwara.Dataplane.RouteMatch
import Dwara.Dataplane.SignedBody
import Dwara.Dataplane.SoapDocuments
import Dwara.Dataplane.SoapEnvelope
import Dwara.Dataplane.SoapOpenElements
import Dwara.Dataplane.Split
import Dwara.Dataplane.TranslationGraphql
import Dwara.Dataplane.UpstreamErrors
import Dwara.Dataplane.Waf
import Dwara.Dataplane.WafBody
import Dwara.Dataplane.WafDecode
import Dwara.Dataplane.WsPolice
import Dwara.Events.Durability
import Dwara.Events.Stream
import Dwara.Extensions.DryRun
import Dwara.Extensions.QuotasAgree
import Dwara.Extensions.RateLimitKeys
import Dwara.Extensions.RateLimiter
import Dwara.Extensions.RateLimiterPass
import Dwara.Extensions.RedisCells
import Dwara.Extensions.RedisQuotas
import Dwara.Extensions.RedisRateLimiter
import Dwara.K8sGateway.Fidelity
import Dwara.K8sGateway.Meaning
import Dwara.K8sGateway.Names
import Dwara.K8sGateway.Representation
import Dwara.K8sGateway.Translate
import Dwara.Lib.BodyStream
import Dwara.Lib.Buckets
import Dwara.Lib.Calendar
import Dwara.Lib.CivilDate
import Dwara.Lib.Codec
import Dwara.Lib.Decimal
import Dwara.Lib.Der
import Dwara.Lib.Framing
import Dwara.Lib.Gcra
import Dwara.Lib.GraphqlFields
import Dwara.Lib.GraphqlText
import Dwara.Lib.GraphqlValue
import Dwara.Lib.GroupBy
import Dwara.Lib.HeaderMap
import Dwara.Lib.Histogram
import Dwara.Lib.HttpHead
import Dwara.Lib.Json
import Dwara.Lib.JsonPath
import Dwara.Lib.Keyed
import Dwara.Lib.Machine
import Dwara.Lib.Matching
import Dwara.Lib.Pieces
import Dwara.Lib.PrimeWalk
import Dwara.Lib.Ranges
import Dwara.Lib.RollingWindow
import Dwara.Lib.SmoothShare
import Dwara.Lib.SuccessorMap
import Dwara.Lib.System
import Dwara.Lib.Text
import Dwara.Lib.TextCursor
import Dwara.Lib.Trie
import Dwara.Lib.Utf8
import Dwara.Lib.Utf8Chunks
import Dwara.Lib.Word
import Dwara.Plugins.Chain
import Dwara.Resilience.Breaker
import Dwara.Resilience.Health
import Dwara.Resilience.RetryBudget
import Dwara.Security.Authenticate
import Dwara.Security.Authz
import Dwara.Security.AuthzChain
import Dwara.Security.CertPinning
import Dwara.Security.ClientIp
import Dwara.Security.HmacReplay
import Dwara.Security.Introspection
import Dwara.Security.JwksCache
import Dwara.Security.LeafIdentity
import Dwara.Security.Oauth2Tokens
import Dwara.Security.Opa
import Dwara.Security.OpaBundles
import Dwara.Security.OpaCallout
import Dwara.Security.OpaDeny
import Dwara.Security.SignedUrl
import Dwara.Security.SignedUrlJunk
import Dwara.Security.Tls
import Dwara.Snapshot.RouteTable
import Dwara.State.CredentialCache
import Dwara.State.CredentialRevocation
import Dwara.State.CredentialTable
import Dwara.State.LeaderStore
import Dwara.State.Quotas
import Dwara.Wasm.HeaderMap
import Dwara.Workspace.Audit
import Dwara.Workspace.Manager
import Dwara.Workspace.Stored
