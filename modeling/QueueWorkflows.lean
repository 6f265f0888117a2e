import QueueWorkflows.Engine.Invariants
import QueueWorkflows.Engine.RunStatus
import QueueWorkflows.Engine.ExactlyOnce
import QueueWorkflows.Engine.Ownership
import QueueWorkflows.Engine.Worker
import QueueWorkflows.Engine.Orchestrator
import QueueWorkflows.Backend.Contract
import QueueWorkflows.Engine.Drain
import QueueWorkflows.Engine.Recovery
import QueueWorkflows.Engine.Submissions
import QueueWorkflows.Engine.ModelBlind
import QueueWorkflows.Backend.Isolation
import QueueWorkflows.Engine.SelfReference
import QueueWorkflows.Engine.LateInputs
import QueueWorkflows.Engine.Noninterference
import QueueWorkflows.Engine.Capacity
import QueueWorkflows.Engine.Lanes
import QueueWorkflows.Engine.Packing
import QueueWorkflows.Backend.ClaimOrder
import QueueWorkflows.Engine.IngestStore
import QueueWorkflows.Engine.Retries
import QueueWorkflows.Engine.GpuPool
import QueueWorkflows.Engine.Settlement
import QueueWorkflows.Backend.Delivery
import QueueWorkflows.Engine.Fixpoint
import QueueWorkflows.Engine.StepGraph
import QueueWorkflows.Engine.Transient
import QueueWorkflows.Engine.IdleWindow
import QueueWorkflows.Engine.SupervisorStop
import QueueWorkflows.Engine.VllmReadiness
import QueueWorkflows.Engine.BackendFreshness
import QueueWorkflows.Engine.DeadWorkers
import QueueWorkflows.Engine.HardStop
import QueueWorkflows.Engine.ModelCache
import QueueWorkflows.Engine.Scheduler
import QueueWorkflows.Engine.Ticker
import QueueWorkflows.Engine.SqliteConnection
import QueueWorkflows.Engine.Bookkeeping
import QueueWorkflows.Engine.Backlog
import QueueWorkflows.Engine.Phantoms
import QueueWorkflows.Engine.Heartbeats
import QueueWorkflows.Engine.Branches
import QueueWorkflows.Engine.StallWatchdog
import QueueWorkflows.Engine.TerminalRows
import QueueWorkflows.Engine.Unresolved
import QueueWorkflows.Base.Paths
import QueueWorkflows.Engine.Contexts
import QueueWorkflows.Engine.Rereading
import QueueWorkflows.Engine.Answers
import QueueWorkflows.Engine.PatchFiles
import QueueWorkflows.Engine.Patches
import QueueWorkflows.Engine.GpuHealth
import QueueWorkflows.Engine.SqlitePath
import QueueWorkflows.Engine.SqlTranslation
import QueueWorkflows.Engine.SqlSymbols
import QueueWorkflows.Engine.SqlPlaceholders
import QueueWorkflows.Engine.SqlParamstyle
import QueueWorkflows.Engine.SqlSigns
import QueueWorkflows.Engine.SqlFaithful
import QueueWorkflows.Base.Calendar
import QueueWorkflows.Engine.SqliteTime
import QueueWorkflows.Engine.SqliteBootstrap
import QueueWorkflows.Base.Keyed
import QueueWorkflows.Base.Scanning
import QueueWorkflows.Backend.Registry
import QueueWorkflows.Base.Locking
import QueueWorkflows.Engine.Migrations
import QueueWorkflows.Backend.Fates
import QueueWorkflows.Engine.PoolFleet
import QueueWorkflows.Base.Wakes
import QueueWorkflows.Engine.Listening
import QueueWorkflows.Engine.WorkerControl
import QueueWorkflows.Engine.ControlWatch
import QueueWorkflows.Engine.Telemetry
