import RustCamel.Lifecycle.CrashRecovery
import RustCamel.Lifecycle.RegistrationRaces
import RustCamel.Lifecycle.RegistrationFailures
import RustCamel.Lifecycle.RecoveredMarks
import RustCamel.Lifecycle.BootNonce
import RustCamel.Lifecycle.ContextLifecycle
import RustCamel.Lifecycle.ImmediateFailures
import RustCamel.HotReload.ReloadStaging
import RustCamel.HotReload.ReloadGenerations
import RustCamel.HotReload.ReloadAgreement
import RustCamel.Processor.CircuitBreakerService
import RustCamel.Processor.AggregatorTimeouts
import RustCamel.Processor.SizeCompletion
import RustCamel.Processor.NdjsonChunking
import RustCamel.Processor.IdempotentConsumer
import RustCamel.Cache.OffloadRaces
import RustCamel.Cache.OffloadStats
import RustCamel.Processor.CacheCoalescing
import RustCamel.Auth.Capacity
import RustCamel.Auth.TokenLifetime
import RustCamel.Simple.WorkBudget
import RustCamel.Simple.RoundTrip
import RustCamel.Sql.QueryText
import RustCamel.Rest.Dispatch
import RustCamel.Endpoint.QueryPartition
import RustCamel.Endpoint.RedactedUri
import RustCamel.Platform.FencingTerms
import RustCamel.Platform.SingleLeader
import RustCamel.Api.HiddenUserinfo
import RustCamel.Xml.Validation
import RustCamel.Simple.PayloadFreeErrors
import RustCamel.Redis.ReadAfterCancel
import RustCamel.Redis.OwnWork
import RustCamel.Redis.ClaimLoop
import RustCamel.File.DoneFiles
import RustCamel.File.MovedFiles
import RustCamel.Master.EpochBridge
import RustCamel.Function.UndoneReloads
import RustCamel.Platform.SharedLocks
import RustCamel.Seda.Fanout
import RustCamel.Kafka.CommitDrain
import RustCamel.ClaimCheck.MemoryRepository
import RustCamel.Lifecycle.StepRecovery
import RustCamel.Processor.BreakerReference
import RustCamel.Processor.ChunkReassembly
import RustCamel.Processor.DoTry
import RustCamel.Processor.RecipientList
import RustCamel.Processor.ResequencerCursor
import RustCamel.ClaimCheck.Filter
import RustCamel.Cache.RedbPrefixes
import RustCamel.Cache.RedbSweep
import RustCamel.Processor.ValueOrder
import RustCamel.Matchers.RowMatching
import RustCamel.DataFormat.Csv
import RustCamel.DataFormat.Form
import RustCamel.Config.ProfileSections
import RustCamel.Config.TypedProbe
