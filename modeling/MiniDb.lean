import MiniDb.Database.CommitPrune
import MiniDb.Database.VisibilityMap
import MiniDb.Database.IndexReach
import MiniDb.Database.SeqScanExact
import MiniDb.Database.IndexShortcuts
import MiniDb.Sql.ProjectRewrite
import MiniDb.Transaction.FreshIds
import MiniDb.Storage.DoubleWrite
import MiniDb.Recovery.FailedCommit
import MiniDb.Recovery.LogComplete
import MiniDb.Database.PageLsn
import MiniDb.Database.Checkpoint
import MiniDb.Database.Uniqueness
import MiniDb.Storage.PageServerCalls
import MiniDb.Concurrency.LockCalls
import MiniDb.Storage.TimeTravel
import MiniDb.Storage.PoolCoherence
import MiniDb.Recovery.Interrupted
import MiniDb.Index.BPlusTree.RangeScan
import MiniDb.Database.DdlRollback
import MiniDb.Database.VacuumComplete
import MiniDb.Index.BPlusTree.HotLeaf
import MiniDb.Transaction.StatusFile
import MiniDb.Concurrency.Deadlock
import MiniDb.Sql.LikeMatch
import MiniDb.Sql.UnionChain
import MiniDb.Sql.SumAggregate
import MiniDb.Sql.TupleKey
import MiniDb.Database.HistoryPruning
import MiniDb.Sql.HashJoin
import MiniDb.Storage.FreeSpace
import MiniDb.Executor.IndexTree
