import AnimaCore.Approvals.Waiting
import AnimaCore.AutomationEvents.OncePerSchedule
import AnimaCore.Execution.Dispatch
import AnimaCore.Execution.Fencing
import AnimaCore.Execution.Isolation
import AnimaCore.Execution.Lifecycle
import AnimaCore.Execution.Consistent
import AnimaCore.Policy.ApprovalBinding
import AnimaCore.Policy.GrantOrder
import AnimaCore.ExecutionLimits.Context
import AnimaCore.FilesystemCheckpoints.SafeRestore
import AnimaCore.FilesystemCheckpoints.RetentionExact
import AnimaCore.Completion.Evidence
import AnimaCore.RunDelta.Interleaving
import AnimaCore.StandingIntents.Ledger
import AnimaCore.ToolRpc.Dispatch
import AnimaCore.Workflows.Decisions
import AnimaCore.AnimaMemory.Restore
import AnimaCore.AnimaMemory.Temporal
import AnimaCore.HotTail.ToolResults
import AnimaCore.Execution.Redaction
import AnimaCore.StandingIntents.Phrases
import AnimaCore.ContextWindow
import AnimaCore.StructuredTasks.Batches
import AnimaCore.AnimaMemory.Removals
import AnimaCore.AnimaMemory.Consolidation
import AnimaCore.AnimaMemory.ContextSelection
import AnimaCore.Approvals.Coverage
import AnimaCore.ShellLex.HeredocScan
import AnimaCore.Runs.Truthful
import AnimaCore.Schedules.ActiveHours
import AnimaCore.Compaction.PrunedTurns
import AnimaCore.HistoryRead.Neighbourhood
import AnimaCore.HotTail.Revert
import AnimaCore.AgentLoop
import AnimaCore.Schedule.Arithmetic
import AnimaCore.FallbackModel.Unmixed
import AnimaCore.Usage.ExactSummary
import AnimaCore.Discord
import AnimaCore.Lib.Framing
import AnimaCore.Live.Fanout
import AnimaCore.StreamFrames
