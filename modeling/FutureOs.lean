import FutureOs.Lib.Json
import FutureOs.Content.OneBody
import FutureOs.Content.Compact
import FutureOs.Content.CompactPublish
import FutureOs.Content.Owners
import FutureOs.Content.FoldGroups
import FutureOs.Runtime.PersistenceLock
import FutureOs.Runtime.CancellationWatchdog
import FutureOs.Runtime.QueueQuota
import FutureOs.Runtime.QueueLifecycle
import FutureOs.Runtime.QueueAdmission
import FutureOs.Runtime.CancellationDelivery
import FutureOs.Remote.RecordWindow
import FutureOs.Remote.PairingOnce
import FutureOs.Remote.CoalesceSpec
import FutureOs.Remote.LaneCursor
import FutureOs.Content.CollectionSafe
import FutureOs.Broadcast.EventsKept
import FutureOs.Lib.Text
import FutureOs.Orchestration.Cadence
import FutureOs.Orchestration.Event
import FutureOs.Orchestration.TerminalTodos
import FutureOs.Orchestration.ClockFree
import FutureOs.Orchestration.AcknowledgedAppends
import FutureOs.Orchestration.GraphEdits
import FutureOs.Orchestration.Frontier
import FutureOs.Orchestration.OutboxRuns
import FutureOs.Orchestration.LeaseHolders
import FutureOs.Orchestration.TornWrites
import FutureOs.Tasks.OnSchedule
import FutureOs.Tasks.TickLoop
import FutureOs.Remote.RunsOnce
import FutureOs.Remote.CatalogLane
import FutureOs.Remote.LocalIntent
import FutureOs.Sandbox.PlanGrants
import FutureOs.Compaction.Restart
import FutureOs.Sandbox.ExecutionGrants
import FutureOs.Tools.Edit
import FutureOs.Compaction.ToolPairs
import FutureOs.Remote.PagedReadExact
import FutureOs.Threads.PagesTile
import FutureOs.Host.RowAgreement
import FutureOs.Sandbox.GlobScanExact
import FutureOs.Sandbox.SeatbeltExact
import FutureOs.Tasks.PromptChain
import FutureOs.Host.FusionFair
import FutureOs.Llm.ChatEnds
import FutureOs.Remote.ContentRangeOnce
import FutureOs.Llm.SseCuts
import FutureOs.Threads.ContentLaneOrder
import FutureOs.Llm.ResponseOnce
import FutureOs.History.PageDelivery
import FutureOs.Content.JsonBytes
import FutureOs.Content.PendingBudgets
import FutureOs.Tools.ArgumentRepair
import FutureOs.Orchestration.CycleReport
import FutureOs.Threads.ReplayVouched
import FutureOs.Orchestration.Closure
import FutureOs.Broadcast.SnapshotAgreement
import FutureOs.Content.ReplayDelivery
