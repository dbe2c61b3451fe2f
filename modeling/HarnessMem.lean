import HarnessMem.AdaptiveProvider
import HarnessMem.AuditChain
import HarnessMem.AuditTamper
import HarnessMem.BroadcastLog
import HarnessMem.BulkDelete
import HarnessMem.ChunkSplit
import HarnessMem.CircuitBreaker
import HarnessMem.ClaudeCodePolls
import HarnessMem.ClaudeCodeSessions
import HarnessMem.ClaudeMemImport
import HarnessMem.CodexHistory
import HarnessMem.CodexResume
import HarnessMem.CodexRollouts
import HarnessMem.CodexSessions
import HarnessMem.Compress
import HarnessMem.Consolidation
import HarnessMem.ConsolidationFacts
import HarnessMem.ConsolidationForest
import HarnessMem.ConsolidationMerges
import HarnessMem.ConsolidationQueue
import HarnessMem.ConsolidationRerun
import HarnessMem.ConsolidationSupersedes
import HarnessMem.ConsolidationWrites
import HarnessMem.ContradictionDetector
import HarnessMem.CreateLink
import HarnessMem.Dedupe
import HarnessMem.DuplicateCleanup
import HarnessMem.EmbeddingRegistry
import HarnessMem.Enrich
import HarnessMem.Envelope
import HarnessMem.Expiry
import HarnessMem.Extractor
import HarnessMem.Feed
import HarnessMem.FeedClient
import HarnessMem.ForgetPolicy
import HarnessMem.GoProxy
import HarnessMem.GoTools
import HarnessMem.GraphExpansion
import HarnessMem.GraphReads
import HarnessMem.GraphReasoner
import HarnessMem.Handoff
import HarnessMem.HistoryPolls
import HarnessMem.HookEvents
import HarnessMem.HookIsolation
import HarnessMem.HtmlEntities
import HarnessMem.IngestOffsets
import HarnessMem.IsoTexts
import HarnessMem.Js
import HarnessMem.Json
import HarnessMem.JsonLines
import HarnessMem.Lease
import HarnessMem.LeaseHolder
import HarnessMem.Lib.AliasChains
import HarnessMem.Lib.Backlinks
import HarnessMem.Lib.Base64
import HarnessMem.Lib.Chains
import HarnessMem.Lib.CursorWalk
import HarnessMem.Lib.FixedFields
import HarnessMem.Lib.HashChain
import HarnessMem.Lib.HopPaths
import HarnessMem.Lib.KeyedList
import HarnessMem.Lib.Keyset
import HarnessMem.Lib.Leaders
import HarnessMem.Lib.LineStream
import HarnessMem.Lib.Outbox
import HarnessMem.Lib.PosixPath
import HarnessMem.Lib.Ranking
import HarnessMem.Lib.Regex
import HarnessMem.Lib.RetainedLog
import HarnessMem.Lib.Rewriting
import HarnessMem.Lib.Runs
import HarnessMem.Lib.Scanning
import HarnessMem.Lib.StableSort
import HarnessMem.Lib.Tables
import HarnessMem.Lib.Unwinding
import HarnessMem.Lib.Utf8
import HarnessMem.Lib.Words
import HarnessMem.LinkExpansion
import HarnessMem.LlmRerank
import HarnessMem.LocalRetryQueue
import HarnessMem.ManagedAgreement
import HarnessMem.ManagedBackend
import HarnessMem.ManagedLifecycle
import HarnessMem.MarkdownChunks
import HarnessMem.McpConfig
import HarnessMem.NuggetCover
import HarnessMem.Nuggets
import HarnessMem.ObservationPages
import HarnessMem.ObservationRepositories
import HarnessMem.OpencodeStorage
import HarnessMem.PackBudget
import HarnessMem.PartialFinalize
import HarnessMem.PathGuards
import HarnessMem.PayloadRedaction
import HarnessMem.PiiFilters
import HarnessMem.PiiRequests
import HarnessMem.PrivateBlocks
import HarnessMem.PrivateIngest
import HarnessMem.PrivateNesting
import HarnessMem.Profile
import HarnessMem.ProjectAliases
import HarnessMem.ProjectNames
import HarnessMem.ProjectScope
import HarnessMem.ProjectScopes
import HarnessMem.ProjectionRebuild
import HarnessMem.Projector
import HarnessMem.Provenance
import HarnessMem.RateLimiter
import HarnessMem.Readers
import HarnessMem.RecordFaults
import HarnessMem.RecordFrames
import HarnessMem.Recorder
import HarnessMem.ReindexScheduler
import HarnessMem.ResumePack
import HarnessMem.RetryQueue
import HarnessMem.RolloutRuns
import HarnessMem.Schema
import HarnessMem.SdkRecord
import HarnessMem.Search
import HarnessMem.SearchFacets
import HarnessMem.SearchFilters
import HarnessMem.SearchLeaks
import HarnessMem.SearchOrder
import HarnessMem.SearchScope
import HarnessMem.SearchSources
import HarnessMem.SearchStages
import HarnessMem.SessionFinalize
import HarnessMem.Sessions
import HarnessMem.Signals
import HarnessMem.SqlTranslation
import HarnessMem.StreamEvents
import HarnessMem.StreamPrivacy
import HarnessMem.SupersededOrder
import HarnessMem.Supersession
import HarnessMem.Sync
import HarnessMem.SyncCursor
import HarnessMem.TemporalState
import HarnessMem.Tenancy
import HarnessMem.TenantLeases
import HarnessMem.Text
import HarnessMem.Timeline
import HarnessMem.TokenResolver
import HarnessMem.UpdateLinks
import HarnessMem.VectorBackfill
import HarnessMem.VectorEngines
import HarnessMem.VectorTables
import HarnessMem.Verify
import HarnessMem.Visibility
import HarnessMem.DatabaseMerge
