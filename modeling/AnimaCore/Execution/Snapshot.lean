import AnimaCore.Execution.MemoryStore

/-!
# AnimaCore.Execution.Snapshot — writing a store to a snapshot and reading it back

`encode_snapshot` and `decode_snapshot_wire` of `execution/memory_store.rs`, with the checks of
`validate_snapshot_run` and `validate_snapshot_state`.  Every check of the decoder fails with the same code.
-/

namespace AnimaCore

open Lib

structure SessionSnapshot where
  ownerId : Uuid
  sessionId : Uuid
  version : ℕ
  definition : DefinitionPin
  policy : SessionConcurrencyPolicy

structure RunSnapshot where
  ownerId : Uuid
  run : Run
  initialInput : DurableRunInput
  runVersion : ℕ
  sessionVersion : ℕ
  lease : Option ExecutionLease
  checkpointVersion : ℕ
  checkpoint : Option CheckpointV1
  events : List RuntimeEvent
  steps : List (String × ℕ × Step)
  nextStepSequence : ℕ
  attempts : List (Uuid × ℕ × ℕ × InvocationAttemptRecord)
  nextAttemptSequence : ℕ
  results : List (Uuid × CompletedInvocationRecord × DurableCapabilityResult)

structure OutcomeSnapshot where
  ownerId : Uuid
  commandId : Uuid
  run : Run
  initialInput : DurableRunInput
  runVersion : ℕ
  sessionVersion : ℕ
  receipt : CommandReceipt
  checkpointVersion : ℕ
  checkpoint : Option CheckpointV1
  grantConsumption : Option GrantConsumption

/-- `SnapshotWire`; the cursor key is its 16 bytes as one number. -/
structure SnapshotWire where
  schemaVersion : ℕ
  cursorKey : BitVec 128
  sessions : List SessionSnapshot
  runs : List RunSnapshot
  serialClaims : List (Uuid × Uuid × Uuid)
  receipts : List (Uuid × CommandReceipt)
  commands : List (Uuid × Uuid × CommandIndexRecord)
  outcomes : List OutcomeSnapshot
  authoritativeGrants : List AuthoritativeGrantState
  authoritativePolicies : List AuthoritativePolicyState
  grantConsumptions : List ConsumptionKey
  approvals : List (Uuid × Uuid × ApprovalIndexRecord)

def canonicalSnapshotSchemaVersion : ℕ := 1

/-! ## Encoding -/

/-- The `RunSnapshot` of one aggregate. -/
def encodeRun (key : Uuid × Uuid) (aggregate : RunAggregate) : RunSnapshot :=
  { ownerId := key.1, run := aggregate.stored.run, initialInput := aggregate.stored.initialInput
    runVersion := aggregate.stored.runVersion, sessionVersion := aggregate.stored.sessionVersion
    lease := aggregate.lease, checkpointVersion := aggregate.checkpointVersion, checkpoint := aggregate.checkpoint
    events := aggregate.events
    steps := aggregate.stepOrder.toList.filterMap fun entry =>
      aggregate.steps[entry.2]?.map fun step => (entry.2, entry.1, step)
    nextStepSequence := aggregate.nextStepSequence
    attempts := aggregate.attemptOrder.toList.filterMap fun entry =>
      aggregate.attempts[entry.2]?.map fun attempt => (entry.2.1, entry.2.2, entry.1, attempt)
    nextAttemptSequence := aggregate.nextAttemptSequence
    results := aggregate.results.toList.map fun entry => (entry.1, entry.2.completed, entry.2.result) }

/-- The `OutcomeSnapshot` of one outcome. -/
def encodeOutcome (key : Uuid × Uuid) (outcome : ExecutionCommitOutcome) : OutcomeSnapshot :=
  { ownerId := key.1, commandId := key.2, run := outcome.storedRun.run
    initialInput := outcome.storedRun.initialInput, runVersion := outcome.storedRun.runVersion
    sessionVersion := outcome.storedRun.sessionVersion, receipt := outcome.receipt
    checkpointVersion := outcome.checkpointVersion, checkpoint := outcome.checkpoint
    grantConsumption := outcome.grantConsumption }

def encodeSnapshot (state : State) (cursorKey : BitVec 128) : SnapshotWire :=
  { schemaVersion := canonicalSnapshotSchemaVersion, cursorKey
    sessions := state.sessions.toList.map fun entry =>
      { ownerId := entry.1.1, sessionId := entry.1.2, version := entry.2.version
        definition := entry.2.definition, policy := entry.2.policy }
    runs := state.runs.toList.map fun entry => encodeRun entry.1 entry.2
    serialClaims := state.serialClaims.toList.map fun entry => (entry.1.1, entry.1.2, entry.2)
    receipts := state.receipts.toList.map fun entry => (entry.1.1, entry.2)
    commands := state.commands.toList.map fun entry => (entry.1.1, entry.1.2, entry.2)
    outcomes := state.outcomes.toList.map fun entry => encodeOutcome entry.1 entry.2
    authoritativeGrants := state.authoritativeGrants.toList.map (·.2)
    authoritativePolicies := state.authoritativePolicies.toList.map (·.2)
    grantConsumptions := state.grantConsumptions.toList
    approvals := state.approvals.toList.map fun entry => (entry.1.1, entry.1.2, entry.2) }

/-! ## Checks of one run -/

def invalidSnapshot : ExecutionStoreErrorCode := .invalidRequest

/-- The order table numbers its entries from one. -/
def contiguousKeys {ν : Type} (order : Table ℕ ν) : Bool :=
  order.keys == (List.range order.size).map (· + 1)

/-- The next sequence follows the last one of the order table. -/
def nextFollows {ν : Type} (next : ℕ) (order : Table ℕ ν) : Bool :=
  (match order.keys.getLast? with
    | none => some 1
    | some last => checkedAdd 64 last 1) == some next

/-- One entry of the attempt-number loop; the state is the last number of each invocation. -/
def attemptNumberStep (aggregate : RunAggregate) (last : Table Uuid ℕ) (key : AttemptKey) :
    StoreResult (Table Uuid ℕ) := do
  let attempt ← okOr aggregate.attempts[key]? invalidSnapshot
  let expected := match last[attempt.invocation.id]? with
    | none => 1
    | some number => (checkedAdd 32 number 1).getD 0
  ensure (attempt.attemptNumber = expected) invalidSnapshot
  return last.insert attempt.invocation.id attempt.attemptNumber

def checkResultLineage (aggregate : RunAggregate) (entry : Uuid × StoredDurableResult) : StoreResult Unit := do
  let completed := entry.2.completed
  let attempt ← okOr aggregate.attempts[(entry.1, completed.attemptNumber)]? invalidSnapshot
  ensure (attempt.invocation = completed.invocation ∧ attempt.state = .completed ∧
    attempt.manifest = completed.manifest ∧ attempt.recoveryMode = completed.recoveryMode ∧
    entry.2.result.schemaDigest = attempt.manifest.schemaDigest ∧
    entry.2.result.resultRef = completed.resultRef.value) invalidSnapshot

def checkSnapshotCheckpoint (digests : Digests) (aggregate : RunAggregate) (checkpoint : CheckpointV1) :
    StoreResult Unit := do
  let run := aggregate.stored.run
  toStore checkpoint.validate
  ensure (checkpoint.runId = run.id ∧ checkpoint.sessionId = run.sessionId ∧
    checkpoint.definition.id = run.definitionId ∧ checkpoint.definition.version = run.definitionVersion ∧
    checkpoint.state = run.state ∧
    checkpoint.lastDurableEventSequence = (aggregate.events.getLast?.map (·.sequence)).getD 0 ∧
    checkpoint.attempts.length = aggregate.attempts.size ∧
    checkpoint.completedInvocations.length = aggregate.results.size ∧
    checkpoint.attemptsFingerprint digests = .ok aggregate.attemptsFingerprint ∧
    checkpoint.completedFingerprint digests = .ok aggregate.completedFingerprint ∧
    checkpoint.cursor.all (fun cursor => decide (cursor.logicalStepId ∈ aggregate.steps)) = true) invalidSnapshot

def validateSnapshotRun (digests : Digests) (ownerId : Uuid) (aggregate : RunAggregate) : StoreResult Unit := do
  let run := aggregate.stored.run
  ensure (aggregate.lease.all (fun lease => decide (lease.validate = .ok ()) && lease.runId == run.id) = true ∧
    RuntimeEvent.validateBatch 1 aggregate.events = .ok () ∧
    (∀ e ∈ aggregate.events, e.ownerId = ownerId ∧ e.sessionId = run.sessionId ∧ e.runId = run.id) ∧
    contiguousKeys aggregate.stepOrder = true ∧ contiguousKeys aggregate.attemptOrder = true) invalidSnapshot
  let _ ← (aggregate.attemptOrder.toList.map (·.2)).foldlM (attemptNumberStep aggregate) ∅
  aggregate.results.toList.forM (checkResultLineage aggregate)
  aggregate.checkpoint.forM (checkSnapshotCheckpoint digests aggregate)

/-! ## Checks across the tables -/

/-- A non-terminal run of a serial session holds the session's claim. -/
def checkSnapshotRunClaim (state : State) (entry : (Uuid × Uuid) × RunAggregate) : StoreResult Unit := do
  let run := entry.2.stored.run
  let session ← okOr state.sessions[(entry.1.1, run.sessionId)]? invalidSnapshot
  ensure (¬(session.policy = .serial ∧ run.state.isTerminal = false ∧
    state.serialClaims[(entry.1.1, run.sessionId)]? ≠ some entry.1.2)) invalidSnapshot

/-- A claim is of a serial session and names a non-terminal run of it. -/
def checkSnapshotClaim (state : State) (entry : (Uuid × Uuid) × Uuid) : StoreResult Unit := do
  let session ← okOr state.sessions[entry.1]? invalidSnapshot
  let aggregate ← okOr state.runs[(entry.1.1, entry.2)]? invalidSnapshot
  ensure (session.policy = .serial ∧ aggregate.stored.run.sessionId = entry.1.2 ∧
    aggregate.stored.run.state.isTerminal = false) invalidSnapshot

/-- The consumption keys that a reported consumption may stand for. -/
def consumptionMatches (ownerId : Uuid) (consumption : GrantConsumption) (key : ConsumptionKey) : Bool :=
  key.1 == ownerId && key.2.2.1 == consumption.grantRevision && key.2.2.2 == consumption.logicalInvocationId

/-- A receipt agrees with its outcome, its command index entry and its run. -/
def checkSnapshotReceipt (state : State) (entry : (Uuid × Uuid) × CommandReceipt) : StoreResult Unit := do
  let ownerId := entry.1.1
  let receipt := entry.2
  let outcome ← okOr state.outcomes[entry.1]? invalidSnapshot
  let stored := outcome.storedRun
  let command ← okOr state.commands[entry.1]? invalidSnapshot
  let aggregate ← okOr state.runs[(ownerId, stored.run.id)]? invalidSnapshot
  ensure (outcome.receipt = receipt ∧ command.payloadDigest = receipt.payloadDigest ∧
    command.runId = stored.run.id ∧ command.sessionId = stored.run.sessionId ∧ stored.ownerId = ownerId ∧
    stored.run.sessionId = aggregate.stored.run.sessionId ∧ stored.runVersion ≤ aggregate.stored.runVersion ∧
    stored.sessionVersion ≤ aggregate.stored.sessionVersion ∧
    outcome.checkpointVersion ≤ aggregate.checkpointVersion) invalidSnapshot
  ensure (outcome.grantConsumption.all (fun consumption =>
    state.grantConsumptions.toList.countP (consumptionMatches ownerId consumption) == 1) = true) invalidSnapshot

/-- A consumption key names an authority, a revision and an invocation. -/
def checkSnapshotConsumption (key : ConsumptionKey) : StoreResult Unit :=
  ensure (key.2.1 ≠ "" ∧ key.2.2.1 ≠ 0 ∧ isNil key.2.2.2 = false) invalidSnapshot

/-- An approval entry is pending on its run, or decided by a command of its run inside its window. -/
def checkSnapshotApproval (state : State) (entry : (Uuid × Uuid) × ApprovalIndexRecord) : StoreResult Unit := do
  let ownerId := entry.1.1
  let record := entry.2
  let aggregate ← okOr state.runs[(ownerId, record.runId)]? invalidSnapshot
  ensure (0 ≤ record.requestedAtMs ∧ record.requestedAtMs < record.expiresAtMs) invalidSnapshot
  match record.decisionCommandId, record.decisionKind, record.decidedAtMs with
  | none, none, none =>
    ensure (aggregate.stored.run.state = .waitingForApproval ∧
      (aggregate.stored.run.pendingApproval.any fun request => request.logicalInvocationId == entry.1.2 &&
        request.runId == record.runId && request.requestedAtMs == record.requestedAtMs &&
        request.expiresAtMs == record.expiresAtMs) = true) invalidSnapshot
  | some commandId, some .approve, some decidedAtMs =>
    ensure (isNil commandId = false ∧ record.requestedAtMs ≤ decidedAtMs ∧ decidedAtMs < record.expiresAtMs ∧
      (ownerId, commandId) ∈ state.receipts ∧
      (state.outcomes[(ownerId, commandId)]?.any fun outcome => outcome.storedRun.run.id == record.runId) = true)
      invalidSnapshot
  | _, _, _ => .error invalidSnapshot

def validateSnapshotState (state : State) : StoreResult Unit := do
  state.runs.toList.forM (checkSnapshotRunClaim state)
  state.serialClaims.toList.forM (checkSnapshotClaim state)
  ensure (state.receipts.size = state.outcomes.size ∧ state.receipts.size = state.commands.size) invalidSnapshot
  state.receipts.toList.forM (checkSnapshotReceipt state)
  state.grantConsumptions.toList.forM checkSnapshotConsumption
  state.approvals.toList.forM (checkSnapshotApproval state)

/-! ## Decoding -/

/-- `insert(..).is_some()` as an error. -/
def insertNew {κ ν : Type} [Ord κ] [Std.TransOrd κ] (table : Table κ ν) (key : κ) (value : ν) :
    StoreResult (Table κ ν) :=
  if key ∈ table then .error invalidSnapshot else .ok (table.insert key value)

def decodeSession (sessions : Table (Uuid × Uuid) StoredSession) (s : SessionSnapshot) :
    StoreResult (Table (Uuid × Uuid) StoredSession) := do
  ensure (isNil s.ownerId = false ∧ isNil s.sessionId = false ∧ s.version ≠ 0) invalidSnapshot
  insertNew sessions (s.ownerId, s.sessionId)
    { version := s.version, ownerId := s.ownerId, definition := s.definition, policy := s.policy }

def decodeStep (runId : Uuid) (acc : Table String Step × Table ℕ String) (entry : String × ℕ × Step) :
    StoreResult (Table String Step × Table ℕ String) := do
  ensure (entry.2.1 ≠ 0 ∧ entry.1 = entry.2.2.logicalStepId ∧ entry.2.2.runId = runId) invalidSnapshot
  let steps ← insertNew acc.1 entry.1 entry.2.2
  let order ← insertNew acc.2 entry.2.1 entry.1
  return (steps, order)

/-- The attempts of a run as they are read: table, order and fingerprint. -/
structure DecodedAttempts where
  attempts : Table AttemptKey InvocationAttemptRecord
  order : Table ℕ AttemptKey
  fingerprint : HistoryFingerprint

def decodeAttempt (digests : Digests) (runId : Uuid) (acc : DecodedAttempts)
    (entry : Uuid × ℕ × ℕ × InvocationAttemptRecord) : StoreResult DecodedAttempts := do
  let attempt := entry.2.2.2
  let key : AttemptKey := (entry.1, entry.2.1)
  ensure (entry.2.2.1 ≠ 0 ∧ entry.1 = attempt.invocation.id ∧ entry.2.1 = attempt.attemptNumber ∧
    attempt.invocation.runId = runId) invalidSnapshot
  let attempts ← insertNew acc.attempts key attempt
  let order ← insertNew acc.order entry.2.2.1 key
  let fingerprint ← toStore (acc.fingerprint.includeValue digests.attempt attempt)
  return { attempts, order, fingerprint }

def decodeResult (digests : Digests) (runId : Uuid) (acc : Table Uuid StoredDurableResult × HistoryFingerprint)
    (entry : Uuid × CompletedInvocationRecord × DurableCapabilityResult) :
    StoreResult (Table Uuid StoredDurableResult × HistoryFingerprint) := do
  let completed := entry.2.1
  ensure (entry.1 = completed.invocation.id ∧ completed.invocation.runId = runId) invalidSnapshot
  let results ← insertNew acc.1 entry.1 { completed, result := entry.2.2 }
  let fingerprint ← toStore (acc.2.includeValue digests.completed completed)
  return (results, fingerprint)

def decodeAggregate (digests : Digests) (sessions : Table (Uuid × Uuid) StoredSession) (run : RunSnapshot) :
    StoreResult RunAggregate := do
  let stored ← StoredRun.newWithInitialInput
    { ownerId := run.ownerId, run := run.run, runVersion := run.runVersion, sessionVersion := run.sessionVersion
      initialInput := run.initialInput }
  let session ← okOr sessions[(run.ownerId, run.run.sessionId)]? invalidSnapshot
  ensure (run.run.definitionId = session.definition.id ∧ run.run.definitionVersion = session.definition.version ∧
    run.sessionVersion ≤ session.version) invalidSnapshot
  let steps ← run.steps.foldlM (decodeStep run.run.id) (∅, ∅)
  let attempts ← run.attempts.foldlM (decodeAttempt digests run.run.id)
    { attempts := ∅, order := ∅, fingerprint := 0 }
  let results ← run.results.foldlM (decodeResult digests run.run.id) (∅, 0)
  return { stored, lease := run.lease, checkpointVersion := run.checkpointVersion, checkpoint := run.checkpoint
           events := run.events, steps := steps.1, stepOrder := steps.2, nextStepSequence := run.nextStepSequence
           attempts := attempts.attempts, attemptOrder := attempts.order
           nextAttemptSequence := run.nextAttemptSequence, attemptsFingerprint := attempts.fingerprint
           results := results.1, completedFingerprint := results.2 }

def decodeRun (digests : Digests) (sessions : Table (Uuid × Uuid) StoredSession)
    (runs : Table (Uuid × Uuid) RunAggregate) (run : RunSnapshot) : StoreResult (Table (Uuid × Uuid) RunAggregate) := do
  let aggregate ← decodeAggregate digests sessions run
  ensure (nextFollows aggregate.nextStepSequence aggregate.stepOrder = true ∧
    nextFollows aggregate.nextAttemptSequence aggregate.attemptOrder = true ∧
    validateSnapshotRun digests run.ownerId aggregate = .ok ()) invalidSnapshot
  insertNew runs (run.ownerId, run.run.id) aggregate

def decodeClaim (runs : Table (Uuid × Uuid) RunAggregate) (claims : Table (Uuid × Uuid) Uuid)
    (entry : Uuid × Uuid × Uuid) : StoreResult (Table (Uuid × Uuid) Uuid) := do
  ensure ((entry.1, entry.2.2) ∈ runs) invalidSnapshot
  insertNew claims (entry.1, entry.2.1) entry.2.2

def decodeCommand (commands : Table (Uuid × Uuid) CommandIndexRecord) (entry : Uuid × Uuid × CommandIndexRecord) :
    StoreResult (Table (Uuid × Uuid) CommandIndexRecord) := do
  let command := entry.2.2
  ensure (isNil entry.1 = false ∧ isNil entry.2.1 = false ∧ isNil command.sessionId = false ∧
    isNil command.runId = false ∧ isNil command.payloadDigest = false) invalidSnapshot
  insertNew commands (entry.1, entry.2.1) command

def decodeOutcome (outcomes : Table (Uuid × Uuid) ExecutionCommitOutcome) (o : OutcomeSnapshot) :
    StoreResult (Table (Uuid × Uuid) ExecutionCommitOutcome) := do
  let stored ← StoredRun.newWithInitialInput
    { ownerId := o.ownerId, run := o.run, runVersion := o.runVersion, sessionVersion := o.sessionVersion
      initialInput := o.initialInput }
  ensure (o.commandId = o.receipt.commandId) invalidSnapshot
  insertNew outcomes (o.ownerId, o.commandId)
    { storedRun := stored, receipt := o.receipt, checkpointVersion := o.checkpointVersion
      checkpoint := o.checkpoint, grantConsumption := o.grantConsumption }

def decodeConsumption (keys : KeySet ConsumptionKey) (key : ConsumptionKey) : StoreResult (KeySet ConsumptionKey) :=
  if key ∈ keys then .error invalidSnapshot else .ok (keys.insert key)

def decodeApproval (approvals : Table (Uuid × Uuid) ApprovalIndexRecord) (entry : Uuid × Uuid × ApprovalIndexRecord) :
    StoreResult (Table (Uuid × Uuid) ApprovalIndexRecord) := do
  ensure (isNil entry.1 = false ∧ isNil entry.2.1 = false) invalidSnapshot
  insertNew approvals (entry.1, entry.2.1) entry.2.2

def decodeSnapshotWire (digests : Digests) (wire : SnapshotWire) : StoreResult (State × BitVec 128) := do
  ensure (wire.schemaVersion = canonicalSnapshotSchemaVersion ∧ wire.cursorKey ≠ 0#128) invalidSnapshot
  let sessions ← wire.sessions.foldlM decodeSession ∅
  let runs ← wire.runs.foldlM (decodeRun digests sessions) ∅
  let serialClaims ← wire.serialClaims.foldlM (decodeClaim runs) ∅
  let receipts ← wire.receipts.foldlM (fun receipts entry => insertNew receipts (entry.1, entry.2.commandId) entry.2) ∅
  let commands ← wire.commands.foldlM decodeCommand ∅
  let outcomes ← wire.outcomes.foldlM decodeOutcome ∅
  let authoritativeGrants ← wire.authoritativeGrants.foldlM (fun grants g => insertNew grants g.tableKey g) ∅
  let authoritativePolicies ← wire.authoritativePolicies.foldlM
    (fun policies p => insertNew policies p.tableKey p) ∅
  let grantConsumptions ← wire.grantConsumptions.foldlM decodeConsumption ∅
  let approvals ← wire.approvals.foldlM decodeApproval ∅
  let state : State :=
    { sessions, runs, serialClaims, receipts, commands, outcomes, authoritativeGrants, authoritativePolicies
      grantConsumptions, approvals }
  validateSnapshotState state
  return (state, wire.cursorKey)

end AnimaCore
