import GoCache.ForStd.Binary64
import GoCache.ForStd.DoublyLinked
import GoCache.ForStd.Recency
import GoCache.ForStd.Restore
import GoCache.ForStd.WriteLog
import GoCache.ForStd.Reaches
import GoCache.ForStd.Decimal
import GoCache.ForStd.Reader
import GoCache.Native.Go
import GoCache.Native.Lru
import GoCache.Native.Cache
import GoCache.Native.Protocol
import GoCache.Native.Persistence
import GoCache.Native.Replication
import GoCache.Native.Handler
import GoCache.Native.PubSub
import GoCache.Spec.LruInvariant
import GoCache.Spec.CacheInvariant
import GoCache.Spec.CacheRuns
import GoCache.Spec.WfCache
import GoCache.Spec.Retention
import GoCache.Spec.ProtocolCorrect
import GoCache.Spec.TornTail
import GoCache.Spec.Recovery
import GoCache.Spec.Dump
import GoCache.Spec.Compaction
import GoCache.Spec.Stream
import GoCache.Spec.Node
import GoCache.Spec.LogOrder
import GoCache.Spec.Durability
import GoCache.Spec.Delivery
import GoCache.Spec.Convergence
import GoCache.Spec.Joining
import GoCache.Spec.Transactions
import GoCache.Native.Locking
import GoCache.Spec.Execution
import GoCache.Spec.ExecLog
import GoCache.Spec.Locks
import GoCache.ForStd.BinarySearch
import GoCache.ForStd.Circle
import GoCache.ForStd.Sha256
import GoCache.Native.HashRing
import GoCache.Spec.Ring
import GoCache.Spec.MigrationPlans
import GoCache.Native.State
import GoCache.Spec.Routing
import GoCache.Native.Migrator
import GoCache.Spec.Migration
import GoCache.Native.ClusterCommands
import GoCache.Native.Connection
import GoCache.Spec.Outcomes
import GoCache.Spec.Requests
import GoCache.Spec.TransactionRuns
import GoCache.ForStd.NestedMap
import GoCache.Spec.PubSubInvariant
import GoCache.ForStd.Returns
import GoCache.Spec.ParserSafety
import GoCache.Spec.ClusterSafety
import GoCache.Spec.CrashFreedom
import GoCache.Spec.SnapshotCrash
import GoCache.Spec.PubSubDelivery
import GoCache.Spec.WireFormat
import GoCache.Native.Leader
import GoCache.Spec.FollowerList
import GoCache.Spec.Resync
import GoCache.Native.Election
import GoCache.Spec.Election
import GoCache.Spec.Seconds
import GoCache.Spec.Expiry
import GoCache.Spec.ReadOnly
import GoCache.Spec.Replies
import GoCache.Spec.ClusterReplies
import GoCache.Spec.Framing
import GoCache.Spec.Membership
import GoCache.Native.Health
import GoCache.Spec.Failover
import GoCache.Native.Redirect
import GoCache.Spec.Redirects
import GoCache.Native.Client
import GoCache.Native.Peers
import GoCache.Spec.ClientValues
import GoCache.Spec.MovedKeys
import GoCache.Spec.PeerEffects
import GoCache.Native.Topology
import GoCache.Spec.Topology
import GoCache.ForStd.Words
import GoCache.Native.ClusterClient
import GoCache.Spec.ClientTopology
import GoCache.Spec.ClientPlacement
import GoCache.Spec.FailedJoins
import GoCache.Spec.Ownership
import GoCache.Spec.EvictedRecovery
import GoCache.ForStd.ExpiringMap
import GoCache.Spec.MapRefinement
import GoCache.Spec.Lifetimes
import GoCache.Spec.Promotion
import GoCache.ForStd.Turns
import GoCache.Spec.RecoveryLoops
import GoCache.Spec.Arcs
import GoCache.Spec.HealthChecks
import GoCache.Spec.TTLArithmetic
import GoCache.Spec.Verification
import GoCache.Spec.Batches
import GoCache.Spec.Decoders
import GoCache.Spec.ShardElection
import GoCache.Native.Rewrite
import GoCache.Spec.FailedRewrite
import GoCache.Spec.LiveMigration
import GoCache.Spec.Modes
import GoCache.ForStd.Scanner
import GoCache.ForStd.Utf8
import GoCache.Native.PythonClient
import GoCache.Spec.Grammar
import GoCache.Spec.PythonParser
import GoCache.Spec.PythonStream
import GoCache.ForStd.Inclusion
import GoCache.Spec.Inclusion
import GoCache.Spec.Isolation
import GoCache.Spec.Pipelines
