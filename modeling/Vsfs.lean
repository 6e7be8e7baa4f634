import Vsfs.Lib.FiniteMap
import Vsfs.Lib.Replay
import Vsfs.Lib.HashRing
import Vsfs.Lib.RingMap
import Vsfs.Lib.Scan
import Vsfs.Lib.Cuts
import Vsfs.Lib.Transition
import Vsfs.Lib.Traversal
import Vsfs.Lib.UnorderedMap
import Vsfs.Lib.Program
import Vsfs.Lib.Answers
import Vsfs.Lib.Futures
import Vsfs.Lib.Pool
import Vsfs.Lib.Script
import Vsfs.Lib.Grouping
import Vsfs.Lib.Framing
import Vsfs.Lib.Overlay
import Vsfs.Lib.Rank
import Vsfs.Lib.Simulation
import Vsfs.Lib.Divided
import Vsfs.Lib.Custody
import Vsfs.Lib.Oversight
import Vsfs.Lib.Lifetimes
import Vsfs.Lib.FileTree
import Vsfs.Lib.Chunks
import Vsfs.Common.Basic
import Vsfs.Common.LevelDBStore
import Vsfs.Common.LexicalCast
import Vsfs.Common.LogManager
import Vsfs.Common.LogStream
import Vsfs.Common.LogFlush
import Vsfs.Common.Path
import Vsfs.Common.IndexPath
import Vsfs.Common.Md5
import Vsfs.Common.ServerMap
import Vsfs.Common.WidestArc
import Vsfs.Common.ComplexQuery
import Vsfs.Common.QueryParser
import Vsfs.Common.QueryItems
import Vsfs.Common.QuerySpelling
import Vsfs.Common.QueryRanges
import Vsfs.Common.QueryRoundTrip
import Vsfs.Common.QueryConjunction
import Vsfs.Common.QueryUnits
import Vsfs.Common.QueryFailure
import Vsfs.Common.PosixPath
import Vsfs.Common.StorageManager
import Vsfs.Common.ObjectStorage
import Vsfs.Index.RangeIndex
import Vsfs.Index.Relation
import Vsfs.Index.Batches
import Vsfs.Index.Split
import Vsfs.Index.IntKey
import Vsfs.Indexd.RangeIndexWrapper
import Vsfs.Rpc.BinaryProtocol
import Vsfs.Indexd.Deferred
import Vsfs.Indexd.Modes
import Vsfs.Indexd.TxnOrder
import Vsfs.Indexd.Malformed
import Vsfs.Indexd.Reports
import Vsfs.Masterd.Namespace
import Vsfs.Masterd.Effects
import Vsfs.Masterd.IndexNamespace
import Vsfs.Masterd.Subtree
import Vsfs.Masterd.PartitionManager
import Vsfs.Masterd.MasterController
import Vsfs.Masterd.WriteThrough
import Vsfs.Masterd.Enclosing
import Vsfs.Masterd.Spelling
import Vsfs.Masterd.PartitionConsistency
import Vsfs.Masterd.Coverage
import Vsfs.Masterd.Registration
import Vsfs.Masterd.Consistency
import Vsfs.Masterd.FailedWrites
import Vsfs.Masterd.Attributes
import Vsfs.Masterd.FileTypes
import Vsfs.Masterd.Loading
import Vsfs.Masterd.MTHashMap
import Vsfs.Masterd.Cluster
import Vsfs.Masterd.Reload
import Vsfs.Masterd.Restart
import Vsfs.Masterd.Routing
import Vsfs.Masterd.Replicas
import Vsfs.Masterd.Answers
import Vsfs.Masterd.Ids
import Vsfs.Masterd.Additions
import Vsfs.Indexd.IndexManager
import Vsfs.Indexd.Findable
import Vsfs.Indexd.Logged
import Vsfs.Indexd.Splitting
import Vsfs.Indexd.Lifecycle
import Vsfs.Indexd.Tables
import Vsfs.Client.VsfsRpcClient
import Vsfs.Client.IndexInfos
import Vsfs.Client.Calls
import Vsfs.Client.Servers
import Vsfs.Client.Retries
import Vsfs.Client.Atomicity
import Vsfs.Client.Rollback
import Vsfs.Client.Truthful
import Vsfs.Client.Balance
import Vsfs.Client.Batch
import Vsfs.Client.Upwards
import Vsfs.Client.Interleaving
import Vsfs.Client.Search
import Vsfs.Fuse.VsfsOps
import Vsfs.Fuse.Links
import Vsfs.Fuse.Writes
import Vsfs.Fuse.OpenFiles
import Vsfs.Fuse.Handles
import Vsfs.Fuse.Handling
import Vsfs.Fuse.Orderly
import Vsfs.Fuse.Paths
import Vsfs.Fuse.Lifetimes
import Vsfs.Fuse.Overseen
import Vsfs.Fuse.Durable
import Vsfs.Client.Results
import Vsfs.Client.OneSided
import Vsfs.Client.Update
import Vsfs.Client.Placement
import Vsfs.Client.Order
import Vsfs.Client.Conjunction
import Vsfs.Client.Removal
import Vsfs.Client.Joining
import Vsfs.Client.Work
import Vsfs.Client.Liveness
import Vsfs.Client.Addressing
import Vsfs.Client.Attribution
import Vsfs.Client.Reaching
import Vsfs.Client.Served
import Vsfs.Client.Granted
import Vsfs.Client.History
import Vsfs.Client.Completeness
import Vsfs.Client.ObjectIds
import Vsfs.Client.Reporting
import Vsfs.Client.PlanKeys
import Vsfs.Ui.Commands
