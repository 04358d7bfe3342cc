import VecDB.LittleEndian
import VecDB.ByteFile
import VecDB.Platform
import VecDB.Checksum
import VecDB.WalModel
import VecDB.WalEntries
import VecDB.WalHeader
import VecDB.WalInvariant
import VecDB.Simulation
import VecDB.WalRefinement
import VecDB.WalTornTail
import VecDB.WalCrash
import VecDB.HnswModel
import VecDB.HnswSearch
import VecDB.HnswLinks
import VecDB.HnswInvariant
import VecDB.HnswRuns
import VecDB.HnswRecall
import VecDB.MmapStore
import VecDB.SegmentInvariant
import VecDB.GraphRoundTrip
import VecDB.GraphPrefix
import VecDB.Snapshot
import VecDB.SnapshotRoundTrip
import VecDB.ConsistentHash
import VecDB.GraphText
import VecDB.PriorityQueue
import VecDB.ShardManager
import VecDB.WalTruncate
import VecDB.HnswContents
import VecDB.LoggedStore
import VecDB.ShardRefinement
import VecDB.ShardRuns
import VecDB.ShardRouting
import VecDB.ShardRecovery
import VecDB.ShardRestarts
import VecDB.ShardCompaction
import VecDB.ShardConcurrency
import VecDB.ShardSnapshotOverlap
import VecDB.SnapshotReload
import VecDB.CircleSuccessor
import VecDB.RingMovement
import VecDB.Metering
import VecDB.RateLimiter
import VecDB.RateLimiterRetries
import VecDB.ShardSearch
import VecDB.SearchHealth
import VecDB.GrpcServer
import VecDB.SearchNaming
import VecDB.SegmentCrash
import VecDB.SnapshotCrash
import VecDB.ChecksumBursts
import VecDB.WalPrefix
import VecDB.SyncedLog
import VecDB.WalCalls
import VecDB.WalUnsynced
import VecDB.StateRules
import VecDB.WalAccepted
import VecDB.WalFailedGrow
import VecDB.WalTruncateCrash
import VecDB.WalDamage
import VecDB.BestOf
import VecDB.HnswBeam
import VecDB.HnswMonotone
import VecDB.GraphTermination
import VecDB.SnapshotAccept
import VecDB.HnswAllocation
import VecDB.WalSealed
import VecDB.ShardFailedInsert
import VecDB.ShardTraces
import VecDB.BulkInsert
import VecDB.WalAttempts
import VecDB.LowerBound
import VecDB.RingLookup
import VecDB.RingRebalance
import VecDB.GrowthSteps
import VecDB.SegmentAccept
import VecDB.SegmentRuns
import VecDB.GraphCursor
import VecDB.LeastPrefix
import VecDB.ShardTopK
import VecDB.GraphReading
import VecDB.GraphGrammar
import VecDB.GraphObjects
import VecDB.GraphRepresents
import VecDB.FloatNumeral
import VecDB.HttpApi
import VecDB.HttpArrays
import VecDB.Binary32
import VecDB.SimdDistance
import VecDB.ServerRuns
import VecDB.ComparableDistances
import VecDB.HnswDistances
import VecDB.ChecksumBits
import VecDB.GreedyDescent
import VecDB.Metrics
import VecDB.NearestRank
import VecDB.SimdKernels
import VecDB.AutomaticIds
import VecDB.HttpInserts
import VecDB.HttpVectors
import VecDB.HttpText
import VecDB.HttpIds
import VecDB.NodeInspector
import VecDB.HttpServer
import VecDB.PartialRequests
import VecDB.HnswBackLinks
import VecDB.ShardIndexes
import VecDB.ReachableIndexes
import VecDB.WalCrashRuns
import VecDB.RateLimiterFairness
import VecDB.ServerAdmission
import VecDB.PeerRates
import VecDB.MetricsThreads
import VecDB.MetricsSnapshots
import VecDB.HttpRuns
import VecDB.ServerMain
import VecDB.JsonText
import VecDB.HttpResponses
import VecDB.HnswExhaustion
import VecDB.ServerExhaustion
import VecDB.WalSwept
import VecDB.LoggedCrashes
import VecDB.ShardSwept
import VecDB.ShardCrashes
