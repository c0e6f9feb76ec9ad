import Durablerun.Lib.Table
import Durablerun.Lib.Prefix
import Durablerun.Lib.Limited
import Durablerun.Lib.JsString
import Durablerun.Lib.Utf
import Durablerun.Lib.JsObject
import Durablerun.Lib.JsText
import Durablerun.Store.Schema
import Durablerun.Store.Fragments
import Durablerun.Store.Statements
import Durablerun.Store.Claim
import Durablerun.Store.Suspend
import Durablerun.Store.Events
import Durablerun.Store.Endings
import Durablerun.Store.Spawn
import Durablerun.Store.System
import Durablerun.Store.Units
import Durablerun.Store.Invariant
import Durablerun.Store.PrefixRange
import Durablerun.Store.Effects
import Durablerun.Store.Turnover
import Durablerun.Store.Wake
import Durablerun.Store.ClaimTheorems
import Durablerun.Store.SuspendTheorems
import Durablerun.Store.EventsTheorems
import Durablerun.Store.SpawnTheorems
import Durablerun.Store.EndingsTheorems
import Durablerun.Store.Failing
import Durablerun.Store.Frame
import Durablerun.Store.FailTheorems
import Durablerun.Store.SweepTheorems
import Durablerun.Store.Runs
import Durablerun.Store.Accounting
import Durablerun.Store.Replay
import Durablerun.Store.Moves
import Durablerun.Store.MovesTheorems
import Durablerun.Store.BatchEffect
import Durablerun.Store.FailingEffect
import Durablerun.Store.Course
import Durablerun.Store.Wakeups
import Durablerun.Store.Revival
import Durablerun.Store.Reads
import Durablerun.Store.Checkpoints
import Durablerun.Store.Deadlines
import Durablerun.Store.LastRun
import Durablerun.Store.Ended
import Durablerun.Store.Finality
import Durablerun.Store.EventFacts
import Durablerun.Store.Instants
import Durablerun.Store.InBounds
import Durablerun.Store.NextWake
import Durablerun.Store.Receipts
import Durablerun.Store.Selection
import Durablerun.Core.ChildTasks
import Durablerun.Sdk.DurableKeys
import Durablerun.Core.TaskOutcomes
import Durablerun.Core.Strings
import Durablerun.Core.TaskValues
import Durablerun.Core.TaskValuesTheorems
import Durablerun.Core.Retention
import Durablerun.Core.Limits
import Durablerun.Store.TakesEffect
import Durablerun.Lib.Assign
import Durablerun.Mysql.Tree
import Durablerun.Mysql.TreeTheorems
import Durablerun.Core.Migration
import Durablerun.Core.MigrationTheorems
import Durablerun.Core.Sagas
import Durablerun.Sdk.Sagas
import Durablerun.Sdk.SagaStore
import Durablerun.Sdk.SagaPasses
import Durablerun.Sdk.SagaOrder
import Durablerun.Sdk.SagaFleet
import Durablerun.Sdk.SagaLandings
import Durablerun.Sdk.SagaTheorems
import Durablerun.Sql.Fragments
import Durablerun.Sql.Placeholders
import Durablerun.Sql.Lexemes
import Durablerun.Sql.PostgresText
import Durablerun.Sql.FragmentTheorems
import Durablerun.Driver.Loop
import Durablerun.Driver.LoopTheorems
import Durablerun.Port.Names
import Durablerun.Operator.StuckRuns
import Durablerun.Operator.StuckRunsTheorems
import Durablerun.Operator.StuckRunsReport
import Durablerun.Sdk.DeliveryOrder
import Durablerun.Sdk.DeliveryOrderInvariant
import Durablerun.Sdk.DeliveryOrderTheorems
import Durablerun.Store.LeaseAuthority
import Durablerun.Store.SagaPhase
import Durablerun.Sdk.DurableCalls
import Durablerun.Sdk.ClaimedRun
import Durablerun.Sdk.SagaContexts
import Durablerun.Sdk.ClaimedRunTheorems
import Durablerun.Lib.ThreeValued
import Durablerun.Sql.Stored
import Durablerun.Sql.StoredFragments
import Durablerun.Sql.StoredRows
import Durablerun.Operator.TaskAdmission
import Durablerun.Operator.TaskAdmissionTheorems
import Durablerun.Store.Purge
import Durablerun.Store.PurgeTheorems
import Durablerun.Store.Purging
import Durablerun.Store.PurgedUnits
import Durablerun.Store.PurgedStates
import Durablerun.Store.EndInstants
import Durablerun.Store.SpawnCalls
import Durablerun.Store.SpawnCallsTheorems
import Durablerun.Store.LosingBatch
import Durablerun.Store.Lifecycle
import Durablerun.Store.PlacedPass
import Durablerun.Store.Counters
import Durablerun.Store.LifecycleTheorems
import Durablerun.Store.Launches
import Durablerun.Store.Sweep
import Durablerun.Store.SweepReports
import Durablerun.Driver.Tick
import Durablerun.Store.Draining
import Durablerun.Driver.TickTheorems
import Durablerun.Store.LeaseTerms
import Durablerun.Lib.Gated
import Durablerun.Store.Sending
import Durablerun.Store.SendingTheorems
import Durablerun.Sql.Gates
import Durablerun.Sql.GatesTheorems
import Durablerun.Sql.TreeBatches
import Durablerun.Sql.TreeBatchesTheorems
