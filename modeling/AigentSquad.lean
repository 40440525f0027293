import AigentSquad.Interaction
import AigentSquad.Trimming
import AigentSquad.LoopProtocol
import AigentSquad.ToolSafety
import AigentSquad.TrimStability
import AigentSquad.ResponseQuality
import AigentSquad.Admission
import AigentSquad.SessionLock
import AigentSquad.TokenBudget
import AigentSquad.GroundedClaims
import AigentSquad.GenericAgent
import AigentSquad.Confidence
import AigentSquad.Budgets
import AigentSquad.StreamedAnswer
import AigentSquad.ItemCounts
import AigentSquad.ToolRouting
import AigentSquad.NameStability
import AigentSquad.Groundedness
import AigentSquad.JsonRoundTrip
import AigentSquad.EvidenceExchange
import AigentSquad.RunInvestigation
import AigentSquad.Supervisor
import AigentSquad.DeliveredAnswers
import AigentSquad.BreakerRecovery
import AigentSquad.SharedBudget
import AigentSquad.RateWindow
import AigentSquad.DailyBudget
import AigentSquad.EntryPoints
import AigentSquad.StoredHistory
import AigentSquad.RejectedArguments
import AigentSquad.BreakerOverRedis
import AigentSquad.ServerBreaker
import AigentSquad.ChatHistory
import AigentSquad.TraceMarkers
import AigentSquad.DataFraming
import AigentSquad.WorkerPool
import AigentSquad.LockSafety
import AigentSquad.AlertDedup
import AigentSquad.KbBudget
import AigentSquad.KbApproval
import AigentSquad.JobBackstop
import AigentSquad.GatewayForwarding
import AigentSquad.ConversationTurn
import AigentSquad.KbSecrets
import AigentSquad.SecretsSent
import AigentSquad.RbacAudit
import AigentSquad.EdgeAuth
import AigentSquad.CollectCache
import AigentSquad.TurnReplay
import AigentSquad.PromptAgreement
import AigentSquad.StreamedStatus
import AigentSquad.LayoutCounts
import AigentSquad.ArgsDisplay
import AigentSquad.RawTrimming
import AigentSquad.ContextSize
import AigentSquad.PathHalving
import AigentSquad.IndependentSignals
import AigentSquad.LoweredConfidence
import AigentSquad.KeptAnswers
import AigentSquad.SpecCache
import AigentSquad.ExtractJson
import AigentSquad.Classifier
import AigentSquad.BlockedLeaks
import AigentSquad.FallibleSort
import AigentSquad.Instants
import AigentSquad.TimelineOrder
import AigentSquad.SurvivedAnswers
import AigentSquad.FoundMatches
import AigentSquad.TokenGrounding
import AigentSquad.InputScanner
import AigentSquad.CanaryRedaction
import AigentSquad.CanaryObfuscation
import AigentSquad.ScannedInput
import AigentSquad.KeyedEntries
import AigentSquad.SchemaPasses
import AigentSquad.SchemaWalk
import AigentSquad.NormalisedSchema
import AigentSquad.SchemaDialect
import AigentSquad.SchemaTotality
import AigentSquad.JsonSchema
import AigentSquad.SchemaWidening
import AigentSquad.NameRegistration
import AigentSquad.OfferedNames
import AigentSquad.AgentHistory
import AigentSquad.LongestSuffix
import AigentSquad.HistoryWindow
import AigentSquad.BedrockClient
import AigentSquad.CountedAttempts
import AigentSquad.RecordedSpend
import AigentSquad.RedactedTwice
import AigentSquad.SkillKeywords
import AigentSquad.OpenRecursion
import AigentSquad.ReferenceInlining
import AigentSquad.CheckDigits
import AigentSquad.LuhnCheck
import AigentSquad.RbacParsing
import AigentSquad.AuditFormats
import AigentSquad.AuditAgreement
import AigentSquad.EventStream
import AigentSquad.ChatFrames
import AigentSquad.OpenAiBridge
import AigentSquad.JobCancellation
import AigentSquad.SharedBreaker
import AigentSquad.KbRetrieval
import AigentSquad.McpCollection
import AigentSquad.AuditRun
import AigentSquad.Readiness
import AigentSquad.RequestTurn
import AigentSquad.AgentQuestions
import AigentSquad.RequestScope
import AigentSquad.FinalAnswers
import AigentSquad.Refusals
import AigentSquad.RequestCost
import AigentSquad.RequestBill
import AigentSquad.GuardrailClient
