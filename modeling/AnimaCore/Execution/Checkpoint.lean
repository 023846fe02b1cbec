import AnimaCore.Execution.State
import AnimaCore.Lib.Table

/-!
# AnimaCore.Execution.Checkpoint — the checkpoint document

`CheckpointV1` of `execution/checkpoint.rs` with the whole of its `validate`, cut into the blocks of the source:
header, canonical orders, provider transcript, attempts, completed and uncertain records, cursor.  The fingerprints
that the source stores beside the document are functions of it (`attemptsFingerprint`, `completedFingerprint`).
-/

namespace AnimaCore

open Lib

/-! ## Usage and budget -/

structure Usage where
  wallTimeMs : ℕ := 0
  turns : ℕ := 0
  capabilitySteps : ℕ := 0
  inputTokens : ℕ := 0
  outputTokens : ℕ := 0
  totalTokens : ℕ := 0
  estimatedCostMicros : ℕ := 0
  concurrentRuns : ℕ := 0
  artifactBytes : ℕ := 0
  downloadBytes : ℕ := 0
  deriving DecidableEq

def Usage.validate (u : Usage) : ExecResult Unit := do
  let total ← okOr (checkedAdd 64 u.inputTokens u.outputTokens) .arithmeticOverflow
  ensure (u.totalTokens = total) .invalidUsage

structure Budget where
  maxWallTimeMs : Option ℕ := none
  maxTurns : Option ℕ := none
  maxCapabilitySteps : Option ℕ := none
  maxInputTokens : Option ℕ := none
  maxOutputTokens : Option ℕ := none
  maxTotalTokens : Option ℕ := none
  maxEstimatedCostMicros : Option ℕ := none
  maxConcurrentRuns : Option ℕ := none
  maxArtifactBytes : Option ℕ := none
  maxDownloadBytes : Option ℕ := none
  requireApprovalAtPercent : Option ℕ := none
  deriving DecidableEq

def Budget.validate (b : Budget) : ExecResult Unit := do
  ensure (some 0 ∉ [b.maxWallTimeMs, b.maxTurns, b.maxCapabilitySteps, b.maxInputTokens, b.maxOutputTokens,
    b.maxTotalTokens, b.maxEstimatedCostMicros, b.maxConcurrentRuns, b.maxArtifactBytes, b.maxDownloadBytes])
    .invalidBudget
  ensure (b.requireApprovalAtPercent.all (fun p => p != 0 && p ≤ 100) = true) .invalidBudget

/-! ## Provider transcript -/

inductive ProviderStopReason
  | endTurn
  | toolCall
  | maxTokens
  deriving DecidableEq, Repr

inductive AttachmentType
  | file
  | image
  | url
  deriving DecidableEq, Repr

structure Attachment where
  attachmentType : AttachmentType
  name : String
  data : String
  mimeType : Option String
  deriving DecidableEq

/-- `Number::as_f64` gives a finite number. -/
def Number.finite : Number → Bool
  | .posInt _ | .negInt _ => true
  | .float bits => bits.toNat / 2 ^ 52 % 2 ^ 11 != 2 ^ 11 - 1

mutual

/-- `provider_data_value` succeeds. -/
def Value.isProviderData : Value → Bool
  | .null | .bool _ | .string _ => true
  | .number n => n.finite
  | .array values => Value.areProviderData values
  | .object entries => Value.entriesAreProviderData entries

def Value.areProviderData : List Value → Bool
  | [] => true
  | v :: vs => v.isProviderData && Value.areProviderData vs

def Value.entriesAreProviderData : List (String × Value) → Bool
  | [] => true
  | (_, v) :: es => v.isProviderData && Value.entriesAreProviderData es

end

structure ProviderContent where
  text : String
  attachments : Option (List Attachment)
  metadata : Option (List (String × Value))
  deriving DecidableEq

/-- `ProviderContent::to_content` succeeds. -/
def ProviderContent.validate (c : ProviderContent) : ExecResult Unit :=
  ensure (c.metadata.all Value.entriesAreProviderData = true) .invalidCheckpoint

structure ProviderToolCall where
  id : String
  name : String
  arguments : Value
  deriving DecidableEq

def Value.isObject : Value → Bool
  | .object _ => true
  | _ => false

def ProviderToolCall.validate (c : ProviderToolCall) : ExecResult Unit := do
  validId c.id
  validId c.name
  ensure (c.arguments.isObject = true ∧ c.arguments.isProviderData = true) .invalidCheckpoint

inductive ProviderTranscriptEntry
  | modelResponse (content : ProviderContent) (toolCalls : List ProviderToolCall) (stopReason : ProviderStopReason)
  | capabilityResult (toolCallId : String) (content : ProviderContent)
  deriving DecidableEq

def ProviderTranscriptEntry.validate : ProviderTranscriptEntry → ExecResult Unit
  | .modelResponse content toolCalls stopReason => do
    content.validate
    toolCalls.forM ProviderToolCall.validate
    ensure (toolCalls = [] ↔ stopReason ≠ .toolCall) .invalidCheckpoint
  | .capabilityResult toolCallId content => do
    validId toolCallId
    content.validate

/-- One entry of the transcript loop of `CheckpointV1::validate`; the state is the set of unanswered calls. -/
def transcriptStep (pending : List String) (entry : ProviderTranscriptEntry) : ExecResult (List String) := do
  entry.validate
  match entry with
  | .modelResponse _ toolCalls _ => do
    ensure (pending = []) .invalidCheckpoint
    ensure ((toolCalls.map (·.id)).Nodup) .invalidCheckpoint
    return toolCalls.map (·.id)
  | .capabilityResult toolCallId _ => do
    ensure (toolCallId ∈ pending) .invalidCheckpoint
    return pending.erase toolCallId

/-! ## Checkpoints -/

/-- The fields of `CheckpointCursor`. -/
structure CheckpointCursorWire where
  logicalInvocationId : Uuid
  attemptNumber : ℕ
  logicalStepId : String
  deriving DecidableEq

def CheckpointCursorWire.validate (c : CheckpointCursorWire) : ExecResult Unit := do
  validUuid c.logicalInvocationId
  ensure (c.attemptNumber ≠ 0) .invalidCheckpoint
  validId c.logicalStepId

structure CheckpointCursor extends CheckpointCursorWire where
  valid : toCheckpointCursorWire.validate = .ok ()
  deriving DecidableEq

def checkpointSchemaVersion : ℕ := 1

def runtimeSchemaVersion : ℕ := 1

structure CheckpointWire where
  schemaVersion : ℕ
  runtimeSchemaVersion : ℕ
  definition : DefinitionPin
  manifests : List ManifestPin
  sessionId : Uuid
  runId : Uuid
  lastDurableEventSequence : ℕ
  state : RunState
  pauseReason : Option RunPauseReason
  cursor : Option CheckpointCursor
  attempts : List InvocationAttemptRecord
  providerTranscript : List ProviderTranscriptEntry
  messageContextRefs : List OpaqueReference
  modelContextRefs : List OpaqueReference
  completedInvocations : List CompletedInvocationRecord
  uncertainInvocations : List UncertainInvocationRecord
  pendingApproval : Option PendingApprovalRecord
  budget : Budget
  usage : Usage
  memoryRefs : List OpaqueReference
  artifactRefs : List OpaqueReference
  deriving DecidableEq

/-- `canonical` and `canonical_by_pair`: the keys are strictly increasing. -/
def canonical {κ : Type} [Ord κ] (keys : List κ) : ExecResult Unit :=
  ensure (keys.IsChain fun a b => compare a b = .lt) .invalidCheckpoint

/-- The `manifest_map` of `CheckpointV1::validate`; a later entry of the list replaces an earlier one. -/
def lookupManifest (manifests : List ManifestPin) (id : String) (version : ℕ) : Option ManifestPin :=
  manifests.reverse.find? fun m => m.id == id && m.version == version

/-- The number that follows the last one of an invocation, `none` past the end of `u32`. -/
def expectedNumber (prior : Option ℕ) : Option ℕ :=
  match prior with
  | none => some 1
  | some n => checkedAdd 32 n 1

/-- The state of the attempt loop: the previous key, and the last number of each invocation. -/
structure AttemptScan where
  previous : Option AttemptKey
  lastByInvocation : Table Uuid ℕ

namespace CheckpointWire

/-- Schema, identities, event sequence and the prerequisites of the state. -/
def validateHeader (c : CheckpointWire) : ExecResult Unit := do
  ensure (c.schemaVersion = checkpointSchemaVersion ∧ c.runtimeSchemaVersion = AnimaCore.runtimeSchemaVersion)
    .incompatibleCheckpoint
  c.definition.validate
  validUuid c.sessionId
  validUuid c.runId
  ensure (c.lastDurableEventSequence ≠ 0) .invalidCheckpoint
  ensure ((c.state = .paused ↔ c.pauseReason.isSome) ∧ c.pauseReason ≠ some .recoveryRequired ∧
    (c.state = .waitingForApproval ↔ c.pendingApproval.isSome)) .invalidCheckpoint

/-- Canonical orders of the manifests and the references. -/
def validateOrders (c : CheckpointWire) : ExecResult Unit := do
  canonical (c.manifests.map (·.sortKey))
  ensure (c.manifests.IsChain fun a b => ¬(a.id = b.id ∧ a.version = b.version)) .invalidCheckpoint
  canonical (c.messageContextRefs.map (·.value))
  canonical (c.modelContextRefs.map (·.value))
  canonical (c.memoryRefs.map (·.value))
  canonical (c.artifactRefs.map (·.value))

def attemptScanStep (c : CheckpointWire) (scan : AttemptScan) (record : InvocationAttemptRecord) :
    ExecResult AttemptScan := do
  record.validate
  ensure (record.invocation.runId = c.runId ∧
    lookupManifest c.manifests record.manifest.id record.manifest.version = some record.manifest) .invalidCheckpoint
  ensure (scan.previous.all (fun p => compare p record.key == .lt) = true ∧
    expectedNumber scan.lastByInvocation[record.invocation.id]? = some record.attemptNumber) .invalidCheckpoint
  return { previous := some record.key
           lastByInvocation := scan.lastByInvocation.insert record.invocation.id record.attemptNumber }

/-- The attempt that a completed record names is listed as completed. -/
def completedListed (c : CheckpointWire) (r : CompletedInvocationRecord) : Bool :=
  c.attempts.any fun a => decide (a.invocation = r.invocation) && a.attemptNumber == r.attemptNumber &&
    a.state == .completed && decide (a.manifest = r.manifest) && a.recoveryMode == r.recoveryMode

/-- The attempt that an uncertain record names is listed as uncertain. -/
def uncertainListed (c : CheckpointWire) (r : UncertainInvocationRecord) : Bool :=
  c.attempts.any fun a => decide (a.invocation = r.invocation) && a.attemptNumber == r.attemptNumber &&
    a.state == .uncertain && decide (a.manifest = r.pause.manifest) && a.recoveryMode == r.pause.manifest.recoveryMode

/-- A completed or uncertain attempt has its record. -/
def stateRecorded (c : CheckpointWire) (a : InvocationAttemptRecord) : Bool :=
  match a.state with
  | .completed =>
    c.completedInvocations.any fun r => decide (r.invocation = a.invocation) && r.attemptNumber == a.attemptNumber
  | .uncertain =>
    c.uncertainInvocations.any fun r => decide (r.invocation = a.invocation) && r.attemptNumber == a.attemptNumber
  | .pending | .dispatching => true

/-- The completed and uncertain records of the document. -/
def validateRecords (c : CheckpointWire) : ExecResult Unit := do
  canonical (c.completedInvocations.map (·.key))
  canonical (c.uncertainInvocations.map fun r => (r.invocation.id, r.attemptNumber))
  ensure (∀ r ∈ c.uncertainInvocations,
    (r.invocation.id, r.attemptNumber) ∉ c.completedInvocations.map (·.key)) .invalidCheckpoint
  c.completedInvocations.forM fun r => do
    r.validate
    ensure (c.completedListed r = true) .invalidCheckpoint
  c.uncertainInvocations.forM fun r => do
    r.pause.validate
    r.validate
    ensure (c.uncertainListed r = true) .invalidCheckpoint
  ensure (c.attempts.all c.stateRecorded = true) .invalidCheckpoint

/-- The attempts that are pending or dispatching. -/
def active (c : CheckpointWire) : List InvocationAttemptRecord :=
  c.attempts.filter fun a => a.state == .pending || a.state == .dispatching

def cursorAttempt (c : CheckpointWire) : Option InvocationAttemptRecord :=
  c.cursor.bind fun cursor => c.attempts.find? fun a =>
    a.invocation.id == cursor.logicalInvocationId && a.attemptNumber == cursor.attemptNumber &&
      a.invocation.logicalStepId == cursor.logicalStepId

/-- The cursor agrees with the attempts and the state. -/
def validateCursor (c : CheckpointWire) : ExecResult Unit :=
  ensure (c.cursor.isSome = c.cursorAttempt.isSome ∧
    c.cursorAttempt.all (fun current => !c.attempts.any fun a =>
      a.invocation.id == current.invocation.id && decide (current.attemptNumber < a.attemptNumber)) = true ∧
    c.active.head?.all (fun a => c.cursorAttempt == some a) = true ∧
    ¬(c.state = .queued ∧ (c.attempts ≠ [] ∨ c.cursor.isSome)) ∧
    ¬(c.state.isTerminal = true ∧ c.cursor.isSome) ∧
    ¬((c.state = .running ∨ c.state = .waitingForApproval ∨ c.state = .paused ∨ c.state = .recoveryRequired) ∧
      c.attempts ≠ [] ∧ c.cursor = none) ∧
    ¬(c.state = .recoveryRequired ∧ c.cursorAttempt.all (fun a => a.state != .uncertain) = true) ∧
    ¬(c.state = .waitingForApproval ∧ c.cursorAttempt.any (fun a => a.state != .pending) = true) ∧
    ¬(c.state = .running ∧ c.cursorAttempt.any (fun a => a.state == .uncertain) = true)) .invalidCheckpoint

/-- The checks after the records: one active attempt, recovery prerequisites, cursor. -/
def validateActivity (c : CheckpointWire) : ExecResult Unit := do
  ensure (c.active.length ≤ 1) .invalidCheckpoint
  ensure (c.state = .recoveryRequired → c.uncertainInvocations ≠ [] ∧
    ∀ r ∈ c.uncertainInvocations, r.pause.invocation.runId = c.runId) .invalidCheckpoint
  ensure (c.state ≠ .recoveryRequired → ∀ r ∈ c.uncertainInvocations, r.resumeBinding = none) .invalidCheckpoint
  c.validateCursor

/-- The pending approval belongs to the cursor's attempt. -/
def validateApproval (c : CheckpointWire) : ExecResult Unit :=
  match c.pendingApproval with
  | none => .ok ()
  | some approval => do
    let attempt ← okOr c.cursorAttempt .invalidCheckpoint
    approval.validateAgainst c.definition attempt

def validate (c : CheckpointWire) : ExecResult Unit := do
  c.validateHeader
  c.cursor.forM fun cursor => cursor.validate
  c.validateOrders
  let _ ← c.providerTranscript.foldlM transcriptStep []
  let _ ← c.attempts.foldlM c.attemptScanStep { previous := none, lastByInvocation := ∅ }
  c.validateRecords
  c.validateActivity
  c.validateApproval
  c.budget.validate
  c.usage.validate

end CheckpointWire

structure CheckpointV1 extends CheckpointWire where
  valid : toCheckpointWire.validate = .ok ()
  deriving DecidableEq

end AnimaCore
