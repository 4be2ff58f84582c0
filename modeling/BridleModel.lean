import BridleModel.Authorization.Theorems.Revocation
import BridleModel.Authorization.Theorems.Derivation
import BridleModel.Evidence.Theorems.Chain
import BridleModel.Json.Ascii
import BridleModel.Library.Base64
import BridleModel.Library.Execution
import BridleModel.Library.Paging
import BridleModel.Library.Processes
import BridleModel.Mailbox.Theorems.Table
import BridleModel.Mailbox.Theorems.Lease
import BridleModel.NodeExecution.Theorems.Notification
import BridleModel.Orchestrator.Theorems.Binding
import BridleModel.Outbox.Theorems.Intents
import BridleModel.Outbox.Theorems.Shared
import BridleModel.Outbox.Theorems.Crash
import BridleModel.Plan.Contract
import BridleModel.Plan.Database
import BridleModel.Plan.Theorems.Contract
import BridleModel.Plan.Theorems.Retry
import BridleModel.Plan.Transition
import BridleModel.Plan.Verification
import BridleModel.PlanGraph.Theorems.Concurrent
import BridleModel.ProjectMap.Theorems.Interfaces
import BridleModel.ProjectMap.Theorems.Arbitration
import BridleModel.ProjectMap.Theorems.Gate
import BridleModel.Mailbox.Theorems.Legacy
import BridleModel.Mailbox.Theorems.Migration
import BridleModel.CodeMap.Listing
import BridleModel.CodeMap.Theorems.Listing
import BridleModel.CodeMap.Indexer
import BridleModel.CodeMap.Scan
import BridleModel.CodeMap.Theorems.Scan
import BridleModel.Container.Authoritative
import BridleModel.Container.Lifecycle
import BridleModel.Container.Theorems.Contract
import BridleModel.Container.Theorems.Lifecycle
import BridleModel.Container.Theorems.Verification
import BridleModel.Orchestrator.Executor
import BridleModel.Orchestrator.Theorems.Executor
import BridleModel.Runtime.ChildResult
import BridleModel.Runtime.Theorems.ChildResult
import BridleModel.CodeMap.Artifacts
import BridleModel.CodeMap.Imports
import BridleModel.CodeMap.Queries
import BridleModel.CodeMap.Theorems.Artifacts
import BridleModel.CodeMap.Theorems.Imports
import BridleModel.CodeMap.Theorems.Queries
import BridleModel.Container.ActiveSlot
import BridleModel.Container.Candidate
import BridleModel.Container.Commands
import BridleModel.Container.Patches
import BridleModel.Container.Theorems.ActiveSlot
import BridleModel.Container.Theorems.Candidate
import BridleModel.Container.Theorems.Classification
import BridleModel.Container.Theorems.Commands
import BridleModel.Container.Theorems.Patches
import BridleModel.Json.Indent
import BridleModel.Library.Locks
import BridleModel.Outbox.PathLocks
import BridleModel.Outbox.Theorems.PathLocks
import BridleModel.ProjectMap.Synthesis
import BridleModel.ProjectMap.Theorems.Synthesis
import BridleModel.Mailbox.Theorems.Addresses
import BridleModel.Events.Bus
import BridleModel.Events.Theorems.Bus
import BridleModel.Mailbox.Theorems.Wake
import BridleModel.Library.Utf8Decoder
import BridleModel.Provider.Generate
import BridleModel.Provider.Theorems.Generate
import BridleModel.Python.RealPath
import BridleModel.Workspace.FileService
import BridleModel.Workspace.Theorems.FileService
import BridleModel.Library.Binary64
import BridleModel.Runtime.RetryDelay
import BridleModel.Runtime.Theorems.RetryDelay
import BridleModel.Container.Theorems.Trust
import BridleModel.Python.Lines
import BridleModel.Tools.DiffFormat
import BridleModel.Tools.Theorems.DiffFormat
import BridleModel.Tools.Theorems.UnifiedDiff
import BridleModel.Memory.ShortTermMemory
import BridleModel.Memory.Theorems.ShortTermMemory
import BridleModel.Provider.Theorems.Tracker
import BridleModel.Context.ConstraintCache
import BridleModel.Context.Theorems.ConstraintCache
import BridleModel.Runtime.InputHandling
import BridleModel.Runtime.InputRelay
import BridleModel.Runtime.Theorems.InputHandling
import BridleModel.Runtime.Theorems.InputRelay
import BridleModel.Library.Tally
import BridleModel.ProjectMap.Boundary
import BridleModel.ProjectMap.Theorems.Boundary
import BridleModel.Library.EventLoop
import BridleModel.Runtime.Host
import BridleModel.Runtime.Theorems.HostSteps
import BridleModel.Runtime.Theorems.Host
import BridleModel.Runtime.Theorems.HostRuns
import BridleModel.CodeMap.Feed
import BridleModel.CodeMap.Theorems.Feed
import BridleModel.ProjectMap.Theorems.Feed
import BridleModel.Frontend.MapSync
import BridleModel.Frontend.Theorems.MapSync
import BridleModel.Frontend.Theorems.Session
