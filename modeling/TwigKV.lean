import TwigKV.Foundations.LabelledRun
import TwigKV.Foundations.QueueCensus
import TwigKV.ReadPool.PoolSafety
import TwigKV.ReadPool.PoolCompletion
import TwigKV.Placement.BlockStore
import TwigKV.Foundations.DecimalText
import TwigKV.Foundations.BucketMap
import TwigKV.AccessRate.CdfConstruction
import TwigKV.Foundations.FirstMaximum
import TwigKV.AccessRate.OptimalSplit
import TwigKV.AccessRate.SearchTrace
import TwigKV.CacheIndexLog.LastWriterWins
import TwigKV.CacheIndexLog.NoLostUpdate
import TwigKV.ClientSync.Barrier
import TwigKV.ClientSync.ReplyPaths
import TwigKV.ClientSync.GetReplies
import TwigKV.ClientSync.SyncUnderTraffic
import TwigKV.ClientSync.ClientThreads
import TwigKV.Foundations.CountedBarrier
import TwigKV.Foundations.TableSums
import TwigKV.ClientSync.MachineThreads
import TwigKV.ClientSync.RunBoundaries
import TwigKV.ClientSync.ConfinedTraffic
import TwigKV.ClientSync.ReplyAccounting
import TwigKV.ClientSync.RunCompletion
import TwigKV.Server.ResponseCount
import TwigKV.Server.ValueFlow
import TwigKV.Cluster.ValueIntegrity
import TwigKV.Placement.KeyRanges
import TwigKV.Placement.Injectivity
import TwigKV.Workload.Splitting
import TwigKV.Workload.ClientMachine
import TwigKV.Workload.GeneratedRun
import TwigKV.Workload.WellFormedGenerators
import TwigKV.Heap.MaxHeap
import TwigKV.Placement.OperationRouting
import TwigKV.CacheIndexes.Convergence
import TwigKV.CacheIndexes.RequestTokens
import TwigKV.CacheIndexes.EvictionCallback
import TwigKV.AsyncRdma.OpPoolSafety
import TwigKV.Server.DiskModes
import TwigKV.Server.SnapshotAccounting
import TwigKV.Server.EndpointSafety
import TwigKV.Server.RequestCompletion
import TwigKV.CacheIndexes.LocalRepair
import TwigKV.CacheIndexLog.ExactlyOnce
import TwigKV.AccessRate.RangeSums
import TwigKV.AccessRate.Cutoff
import TwigKV.AccessRate.IdleInterval
import TwigKV.Server.WireRoundTrip
import TwigKV.Server.SnapshotEntries
import TwigKV.Traces.GeneratedTrace
import TwigKV.Traces.TraceExecution
import TwigKV.Traces.MeasuringLoop
import TwigKV.AccessRate.HillClimbPlateau
import TwigKV.AccessRate.TunerQuality
import TwigKV.Foundations.Simulation
import TwigKV.ReadPool.PoolHistory
import TwigKV.Process.ServerProcess
import TwigKV.Process.ProcessRefinement
import TwigKV.Process.ProcessCompletion
import TwigKV.Deployment.System
import TwigKV.Deployment.OpenRequests
import TwigKV.Deployment.ClientView
import TwigKV.Deployment.EndToEnd
import TwigKV.Deployment.SingletonRing
import TwigKV.Deployment.SingletonForwarding
