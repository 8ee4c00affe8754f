import ThreeTears.Collections.L1Coherence
import ThreeTears.Collections.BufferRuns
import ThreeTears.Collections.DeleteRace
import ThreeTears.Collections.CasSwaps
import ThreeTears.Collections.GenerationRuns
import ThreeTears.Collections.MarkRuns
import ThreeTears.Coordination.Flusher
import ThreeTears.Coordination.LeaseRefresh
import ThreeTears.Coordination.CoalescedRequests
import ThreeTears.Coordination.ReplayAnchor
import ThreeTears.Coordination.RedemptionRuns
import ThreeTears.Coordination.TokenBucketRate
import ThreeTears.Collections.CopiesOneState
import ThreeTears.Collections.CopyProofs
import ThreeTears.Snapshot.ServedChunks
import ThreeTears.Snapshot.VersionedReads
import ThreeTears.Snapshot.DiffRecovery
import ThreeTears.Snapshot.IndexedScopes
import ThreeTears.Nats.StoredObjects
import ThreeTears.Shared.PartedVersions
import ThreeTears.Shared.StoreBound
import ThreeTears.Shared.ReaderLeases
import ThreeTears.Collections.AbsenceRuns
import ThreeTears.Collections.DroppedTables
import ThreeTears.Collections.SettledRows
import ThreeTears.Collections.RetiredAnswers
import ThreeTears.Collections.ScopeFloors
import ThreeTears.Collections.SingleFlight
import ThreeTears.Collections.ScanCache
import ThreeTears.Coordination.IdempotencyKeys
import ThreeTears.Security.RotatedKeys
import ThreeTears.Jobs.RandomWindow
import ThreeTears.Jobs.StoppedJobs
import ThreeTears.Backup.ClusterBackup
import ThreeTears.Nats.PipeCredit
import ThreeTears.Langgraph.Checkpoints
import ThreeTears.Channels.RoomFanout
import ThreeTears.Nats.OpLog
import ThreeTears.Nats.OpLogServer
import ThreeTears.Epoch.Listener
import ThreeTears.Iam.LostReplies
import ThreeTears.Workspace.FileWrites
import ThreeTears.Channels.RoomMembers
import ThreeTears.Workspace.FileJournal
import ThreeTears.Conversations.MessageCounts
import ThreeTears.Acl.GroupNesting
import ThreeTears.Backup.DumpFilter
import ThreeTears.Collections.KeysetPages
import ThreeTears.Iam.MemoryStore
import ThreeTears.Migrations.PackageOrder
import ThreeTears.Coordination.LockCancellation
import ThreeTears.Git.ChangeSets
import ThreeTears.Git.Wire
