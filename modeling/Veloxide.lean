import Veloxide.Actor.ExecutionSemaphore
import Veloxide.Actor.Reanimator
import Veloxide.Actor.WorkflowSemaphores
import Veloxide.CircuitBreaker.Quarantine
import Veloxide.CircuitBreaker.Resurrection
import Veloxide.Compensation.Order
import Veloxide.Connector.Orchestrator
import Veloxide.Executor.TaskProtocol
import Veloxide.GhostWorkflow.Reaper
import Veloxide.HotReload.Loader
import Veloxide.Ipc.Spsc
import Veloxide.LeaseCalc
import Veloxide.Lineage.ContinueAsNew
import Veloxide.Lineage.Routing
import Veloxide.Linter.Cycles
import Veloxide.Replay.InMemorySnapshots
import Veloxide.Replay.MultiStep
import Veloxide.Replay.ReachableStates
import Veloxide.Replay.SnapshotRecovery
import Veloxide.Replay.VersionRegistry
import Veloxide.Scheduler.DueTimes
import Veloxide.Scheduler.PopDue
import Veloxide.Scheduler.PriorityQueue
import Veloxide.Storage.AdmissionRuns
import Veloxide.Storage.BudgetSaga
import Veloxide.Storage.DedupeCodec
import Veloxide.Storage.DedupeWindows
import Veloxide.Storage.EffectHistory
import Veloxide.Storage.EffectKeys
import Veloxide.Storage.EffectOutcome
import Veloxide.Storage.EventStreams
import Veloxide.Storage.FenceTokens
import Veloxide.Storage.InMemoryEvents
import Veloxide.Storage.KeyOrder
import Veloxide.Storage.LegacyKeys
import Veloxide.Storage.MerkleTree
import Veloxide.Storage.OptimisticConcurrency
import Veloxide.Storage.Purge
import Veloxide.Storage.QueryOptimizer
import Veloxide.Storage.SagaReconciliation
import Veloxide.Storage.SnapshotDiff
import Veloxide.Storage.SnapshotWrites
import Veloxide.Storage.Suspension
import Veloxide.Storage.TimerBloom
import Veloxide.Storage.TimerSchedule
import Veloxide.Structures.PairingHeap
import Veloxide.Types.CommandHistory
import Veloxide.Types.DependencyGraph
import Veloxide.Types.FanIn
import Veloxide.Types.PayloadNumbers
import Veloxide.Types.TxCoordinator
import Veloxide.Worker.WaitForGraph
import Veloxide.Workspace.PathIndex
import Veloxide.WorkspaceSwap.AtomicSwap
import Veloxide.Writer.Actor
import Veloxide.Writer.InstanceRecords
