import AnimaCore.ExecutionLimits

/-!
# AnimaCore.RunDelta — merging a run into its agent, and taking it back

`runtime/run_delta.rs`: several rooms of one agent run at once, each on a copy of the agent's runtime.  What a copy
recorded is a `RuntimeRunDelta`; committing the run applies it to the canonical runtime, and a commit that does not
stand is reverted.

* `AgentRuntime` has the fields these functions read or write; adapters, listeners and guidance are left out.
* A number of a `DataValue` is the rational it stands for: what the source compares comes from JSON, which has no `NaN`.
* `u64` and `usize` sums wrap, except where the source saturates.
* `Commits` is an agent with its commits and rollbacks: the undo of an applied delta is kept with it, as `RunChangeSet`
  keeps it.
-/

namespace AnimaCore.RunDelta

open Lib

/-! ## Content -/

mutual

inductive DataValue
  | null
  | bool (b : Bool)
  | number (x : ℚ)
  | string (s : String)
  | array (items : DataItems)
  | object (fields : DataFields)
  deriving DecidableEq

/-- `Vec<DataValue>`. -/
inductive DataItems
  | nil
  | cons (item : DataValue) (rest : DataItems)
  deriving DecidableEq

/-- `BTreeMap<String, DataValue>`, in the order of its keys. -/
inductive DataFields
  | nil
  | cons (key : String) (value : DataValue) (rest : DataFields)
  deriving DecidableEq

end

inductive AttachmentType
  | file
  | image
  | url
  deriving DecidableEq, Repr

structure Attachment where
  attachmentType : AttachmentType
  name : String
  data : String
  mimeType : Option String
  deriving DecidableEq, Repr

structure Content where
  text : String
  attachments : Option (List Attachment)
  metadata : Option DataFields
  deriving DecidableEq

inductive MessageRole
  | user
  | assistant
  | system
  | tool
  deriving DecidableEq, Repr

structure Message where
  id : String
  agentId : String
  roomId : String
  content : Content
  role : MessageRole
  createdAtMs : ℕ
  deriving DecidableEq

inductive TaskStatus
  | success
  | error
  deriving DecidableEq, Repr

structure TaskResult (α : Type) where
  status : TaskStatus
  data : Option α
  error : Option String
  durationMs : ℕ
  deriving DecidableEq

inductive EventType
  | agentSpawned
  | agentStarted
  | agentCompleted
  | agentFailed
  | agentTerminated
  | agentMessage
  | taskStarted
  | taskCompleted
  | taskFailed
  | toolBefore
  | toolAfter
  | agentTokens
  | swarmCreated
  | swarmCompleted
  | swarmStopped
  deriving DecidableEq, Repr

structure EngineEvent where
  id : String
  eventType : EventType
  agentId : Option String
  timestampMs : ℕ
  data : DataValue
  deriving DecidableEq

inductive AgentStatus
  | idle
  | running
  | completed
  | failed
  | terminated
  deriving DecidableEq, Repr

/-! ## Usage -/

/-- `u64::saturating_add`. -/
def saturatingSum (a b : ℕ) : ℕ := min (a + b) (2 ^ 64 - 1)

/-- `TokenUsage::saturating_add`. -/
def addUsage (total delta : TokenUsage) : TokenUsage :=
  { promptTokens := saturatingSum total.promptTokens delta.promptTokens
    completionTokens := saturatingSum total.completionTokens delta.completionTokens
    totalTokens := saturatingSum total.totalTokens delta.totalTokens
    cachedPromptTokens := saturatingSum total.cachedPromptTokens delta.cachedPromptTokens
    reasoningTokens := saturatingSum total.reasoningTokens delta.reasoningTokens }

/-- `usage_since` and `subtract_usage`: a subtraction of `ℕ` saturates as the source's does. -/
def subtractUsage (total delta : TokenUsage) : TokenUsage :=
  { promptTokens := total.promptTokens - delta.promptTokens
    completionTokens := total.completionTokens - delta.completionTokens
    totalTokens := total.totalTokens - delta.totalTokens
    cachedPromptTokens := total.cachedPromptTokens - delta.cachedPromptTokens
    reasoningTokens := total.reasoningTokens - delta.reasoningTokens }

/-! ## Runtimes and deltas -/

/-- `AgentRuntime`; `status` and `tokenUsage` are those of its state. -/
structure AgentRuntime where
  status : AgentStatus
  tokenUsage : TokenUsage
  messages : List Message
  lastTask : Option (TaskResult Content)
  events : List EngineEvent
  eventTotal : ℕ
  stepCounter : ℕ
  deriving DecidableEq

structure RuntimeRunBase where
  messageCount : ℕ
  eventTotal : ℕ
  tokenUsage : TokenUsage
  stepCount : ℕ
  deriving DecidableEq

structure RuntimeRunDelta where
  messages : List Message
  events : List EngineEvent
  eventTotal : ℕ
  tokenUsage : TokenUsage
  stepCount : ℕ
  lastTask : Option (TaskResult Content)
  status : AgentStatus
  deriving DecidableEq

structure RuntimeRunUndo where
  lastTask : Option (TaskResult Content)
  status : AgentStatus
  deriving DecidableEq

def maxRetainedEvents : ℕ := 500

def eventTrimSlack : ℕ := 64

namespace AgentRuntime

def runBase (r : AgentRuntime) : RuntimeRunBase :=
  { messageCount := r.messages.length, eventTotal := r.eventTotal, tokenUsage := r.tokenUsage
    stepCount := r.stepCounter }

def runDeltaSince (r : AgentRuntime) (base : RuntimeRunBase) : RuntimeRunDelta :=
  let eventTotal := r.eventTotal - base.eventTotal
  let retained := min eventTotal r.events.length
  { messages := r.messages.drop base.messageCount
    events := r.events.drop (r.events.length - retained)
    eventTotal
    tokenUsage := subtractUsage r.tokenUsage base.tokenUsage
    stepCount := r.stepCounter - base.stepCount
    lastTask := r.lastTask
    status := r.status }

/-- The trimming of `apply_run_delta`: the newest events, once there are too many. -/
def trimEvents (events : List EngineEvent) : List EngineEvent :=
  if maxRetainedEvents + eventTrimSlack < events.length then events.drop (events.length - maxRetainedEvents) else events

/-- What `apply_run_delta` keeps for `revert_run_delta`. -/
def undo (r : AgentRuntime) : RuntimeRunUndo := { lastTask := r.lastTask, status := r.status }

/-- `AgentRuntime::apply_run_delta`; its undo is that of the runtime before it. -/
def applyRunDelta (r : AgentRuntime) (delta : RuntimeRunDelta) : AgentRuntime :=
  { status := delta.status
    tokenUsage := addUsage r.tokenUsage delta.tokenUsage
    messages := r.messages ++ delta.messages
    lastTask := if delta.lastTask.isSome then delta.lastTask else r.lastTask
    events := trimEvents (r.events ++ delta.events)
    eventTotal := (r.eventTotal + delta.eventTotal) % 2 ^ 64
    stepCounter := (r.stepCounter + delta.stepCount) % 2 ^ 64 }

/-- Whether the result of a runtime is still that of a delta. -/
def stillThisRun (r : AgentRuntime) (delta : RuntimeRunDelta) (undo : RuntimeRunUndo) : Bool :=
  match delta.lastTask with
  | some task => decide (r.lastTask = some task)
  | none => decide (r.lastTask = undo.lastTask)

def revertRunDelta (r : AgentRuntime) (delta : RuntimeRunDelta) (undo : RuntimeRunUndo) : AgentRuntime :=
  let messageIds := delta.messages.map (·.id)
  let eventIds := delta.events.map (·.id)
  let restored := r.stillThisRun delta undo
  { status := if restored then undo.status else r.status
    tokenUsage := subtractUsage r.tokenUsage delta.tokenUsage
    messages := r.messages.filter fun message => !messageIds.contains message.id
    lastTask := if restored then undo.lastTask else r.lastTask
    events := r.events.filter fun event => !eventIds.contains event.id
    eventTotal := r.eventTotal - delta.eventTotal
    stepCounter := r.stepCounter - delta.stepCount }

end AgentRuntime

/-! ## Commits and rollbacks of one agent -/

/-- An applied delta with its undo, and whether it still stands. -/
structure Commit where
  delta : RuntimeRunDelta
  undo : RuntimeRunUndo
  standing : Bool
  deriving DecidableEq

/-- The canonical runtime of an agent and its commits, oldest first. -/
structure Commits where
  runtime : AgentRuntime
  log : List Commit
  deriving DecidableEq

/-- A commit, or the rollback of the `index`-th one. -/
inductive CommitOp
  | commit (delta : RuntimeRunDelta)
  | rollback (index : ℕ)
  deriving DecidableEq

/-- The runtime part of `commit_run` and `rollback_run`. -/
def Commits.step (s : Commits) : CommitOp → Commits
  | .commit delta =>
    { runtime := s.runtime.applyRunDelta delta, log := s.log ++ [{ delta, undo := s.runtime.undo, standing := true }] }
  | .rollback index =>
    match s.log[index]? with
    | some c =>
      { runtime := s.runtime.revertRunDelta c.delta c.undo, log := s.log.set index { c with standing := false } }
    | none => s

/-- The deltas of the commits that stand, in the order they were applied. -/
def standing (log : List Commit) : List RuntimeRunDelta := (log.filter (·.standing)).map (·.delta)

def Commits.start (r : AgentRuntime) : Commits := { runtime := r, log := [] }

end AnimaCore.RunDelta
