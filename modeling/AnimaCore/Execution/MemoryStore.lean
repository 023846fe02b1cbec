import AnimaCore.Execution.CommitPatch
import AnimaCore.Lib.Machine

/-!
# AnimaCore.Execution.MemoryStore — the operations of the in-memory store

The seven mutating operations of `InMemoryExecutionStore`.  Each is a function from a state to a result and the
state it leaves, also on an error: an operation that writes a table and then fails leaves the write behind.  The
clock reading and the fresh fence of an operation are arguments.

`Op` is one call with its arguments and `exec` runs it; a run of the store is a list of calls.  `Sample` is one small
store that the later modules check their results on.
-/

namespace AnimaCore

open Lib

/-! ## Policies and grants -/

def applyAuthoritativePolicy (ownerId : Uuid) (change : AuthoritativePolicyChange) (state : State) :
    StoreResult AuthoritativePolicyState × State :=
  let key := (ownerId, change.key.1, change.key.2)
  if isNil ownerId then (.error .invalidRequest, state)
  else
    match change.applyTo state.authoritativePolicies[key]? with
    | .error e => (.error e, state)
    | .ok next =>
      if next.ownerId ≠ ownerId then (.error .invalidRequest, state)
      else (.ok next, { state with authoritativePolicies := state.authoritativePolicies.insert key next })

def applyAuthoritativeGrant (ownerId : Uuid) (change : AuthoritativeGrantChange) (state : State) :
    StoreResult AuthoritativeGrantState × State :=
  if isNil ownerId || change.newState.any (fun next => next.ownerId != ownerId) then (.error .invalidRequest, state)
  else
    match change.applyTo state.authoritativeGrants[(ownerId, change.authorityKey.asStr)]? with
    | .error e => (.error e, state)
    | .ok next =>
      (.ok next, { state with authoritativeGrants :=
        state.authoritativeGrants.insert (ownerId, next.authorityKey.asStr) next })

/-! ## Runs -/

/-- The session version that a new run of the request gets. -/
def nextSessionVersion (request : CreateRun) (current : Option StoredSession) : StoreResult ℕ :=
  match current with
  | some current =>
    if current.version = request.expectedSessionVersion ∧ current.ownerId = request.ownerId ∧
        current.definition = request.session.definition ∧ current.policy = request.concurrencyPolicy then
      okOr (checkedAdd 64 current.version 1) .arithmeticOverflow
    else if current.ownerId ≠ request.ownerId ∨ current.definition ≠ request.session.definition then
      .error .invalidRequest
    else .error .versionConflict
  | none => if request.expectedSessionVersion = 0 then .ok 1 else .error .versionConflict

/-- The checks of `create_run` before its first write; the answer is the session version. -/
def checkCreateRun (ownerId : Uuid) (request : CreateRun) (state : State) : StoreResult ℕ := do
  ensure (isNil ownerId = false ∧ request.ownerId = ownerId ∧ request.run.state = .queued ∧
    request.run.sessionId = request.session.id ∧ request.run.definitionId = request.session.definition.id ∧
    request.run.definitionVersion = request.session.definition.version) .invalidRequest
  let concurrency ← toStore request.session.concurrencyPolicy
  ensure (concurrency = request.concurrencyPolicy) .invalidRequest
  ensure ((ownerId, request.run.id) ∉ state.runs) .versionConflict
  let sessionVersion ← nextSessionVersion request state.sessions[(ownerId, request.session.id)]?
  ensure (¬(request.concurrencyPolicy = .serial ∧ (ownerId, request.session.id) ∈ state.serialClaims))
    .activeRunConflict
  return sessionVersion

/-- `create_run`: the session and its claim are written before the stored run is built. -/
def createRun (ownerId : Uuid) (request : CreateRun) (state : State) : StoreResult StoredRun × State :=
  match checkCreateRun ownerId request state with
  | .error e => (.error e, state)
  | .ok sessionVersion =>
    let sessionKey := (ownerId, request.session.id)
    let session : StoredSession :=
      { version := sessionVersion, ownerId := request.ownerId, definition := request.session.definition
        policy := request.concurrencyPolicy }
    let state := { state with sessions := state.sessions.insert sessionKey session }
    let state :=
      if request.concurrencyPolicy = .serial then
        { state with serialClaims := state.serialClaims.insert sessionKey request.run.id }
      else state
    match StoredRun.newWithInitialInput
      { ownerId, run := request.run, runVersion := 1, sessionVersion, initialInput := request.initialInput } with
    | .error e => (.error e, state)
    | .ok stored =>
      (.ok stored, { state with runs := state.runs.insert (ownerId, request.run.id) (RunAggregate.fresh stored) })

/-- A replayed `retry_run`: the new run and the receipt of its command are still there. -/
def replayRetryRun (digests : Digests) (ownerId : Uuid) (request : RetryRun) (sessionId : Uuid)
    (command : RuntimeCommand) (existing : CommandIndexRecord) (state : State) : StoreResult RetryRunOutcome := do
  ensure (existing.sessionId = sessionId ∧ existing.runId = request.sourceRunId ∧ existing.kind = .retry ∧
    existing.payloadDigest = command.payloadDigest digests) .commandConflict
  let aggregate ← okOr state.runs[(ownerId, request.newRunId)]? .historyConflict
  let receipt ← okOr state.receipts[(ownerId, request.commandId)]? .historyConflict
  RetryRunOutcome.new request.sourceRunId aggregate.stored receipt

/-- The checks of a new `retry_run` before its first write: the session, and the stored run. -/
def checkRetryRun (ownerId : Uuid) (request : RetryRun) (source : StoredRun) (state : State) :
    StoreResult (StoredSession × StoredRun) := do
  let sessionKey := (ownerId, source.run.sessionId)
  ensure ((ownerId, request.newRunId) ∉ state.runs) .versionConflict
  let session ← okOr state.sessions[sessionKey]? .notFound
  ensure (session.definition.id = source.run.definitionId ∧ session.definition.version = source.run.definitionVersion ∧
    ¬(session.policy = .serial ∧ sessionKey ∈ state.serialClaims)) .activeRunConflict
  let sessionVersion ← okOr (checkedAdd 64 session.version 1) .arithmeticOverflow
  let run ← toStore (Run.queued request.newRunId source.run.sessionId source.run.definitionId
    source.run.definitionVersion)
  let input ← DurableRunInput.newText ownerId source.run.sessionId request.newRunId source.initialInput.text
  let stored ← StoredRun.newWithInitialInput
    { ownerId, run, runVersion := 1, sessionVersion, initialInput := input }
  return ({ session with version := sessionVersion }, stored)

/-- The writes of a new `retry_run`. -/
def writeRetryRun (digests : Digests) (ownerId : Uuid) (request : RetryRun) (source : RunAggregate)
    (command : RuntimeCommand) (session : StoredSession) (stored : StoredRun) (state : State) : State :=
  let sessionKey := (ownerId, source.stored.run.sessionId)
  let commandKey := (ownerId, request.commandId)
  let receipt := CommandReceipt.accepted digests command
  { state with
    sessions := state.sessions.insert sessionKey session
    serialClaims := if session.policy = .serial then state.serialClaims.insert sessionKey request.newRunId
      else state.serialClaims
    runs := state.runs.insert (ownerId, request.newRunId) (RunAggregate.fresh stored)
    receipts := state.receipts.insert commandKey receipt
    outcomes := state.outcomes.insert commandKey
      { storedRun := source.stored, receipt, checkpointVersion := source.checkpointVersion, checkpoint := none
        grantConsumption := none }
    commands := state.commands.insert commandKey
      { sessionId := source.stored.run.sessionId, runId := request.sourceRunId, kind := .retry
        payloadDigest := command.payloadDigest digests } }

/-- The source run of a retry and the retry's command. -/
def retrySource (ownerId : Uuid) (request : RetryRun) (state : State) : StoreResult (RunAggregate × RuntimeCommand) := do
  ensure (isNil ownerId = false) .invalidRequest
  let source ← okOr state.runs[(ownerId, request.sourceRunId)]? .notFound
  ensure (source.stored.run.state = .failed ∨ source.stored.run.state = .cancelled) .invalidRequest
  let command ← toStore (RuntimeCommand.retry request.commandId source.stored.run.sessionId request.sourceRunId
    request.newRunId)
  return (source, command)

def retryRun (digests : Digests) (ownerId : Uuid) (request : RetryRun) (state : State) :
    StoreResult RetryRunOutcome × State :=
  match retrySource ownerId request state with
  | .error e => (.error e, state)
  | .ok (source, command) =>
    match state.commands[(ownerId, request.commandId)]? with
    | some existing =>
      (replayRetryRun digests ownerId request source.stored.run.sessionId command existing state, state)
    | none =>
      match checkRetryRun ownerId request source.stored state with
      | .error e => (.error e, state)
      | .ok (session, stored) =>
        (RetryRunOutcome.new request.sourceRunId stored (CommandReceipt.accepted digests command),
          writeRetryRun digests ownerId request source command session stored state)

/-! ## Leases -/

/-- The lease that `acquire_lease` grants. -/
def grantLease (ownerId runId : Uuid) (expectedRunVersion durationMs nowMs : ℕ) (fence : Uuid) (state : State) :
    StoreResult ExecutionLease := do
  ensure (durationMs ≠ 0) .invalidRequest
  let aggregate ← okOr state.runs[(ownerId, runId)]? .notFound
  ensure (aggregate.stored.runVersion = expectedRunVersion) .versionConflict
  ensure (aggregate.stored.run.state.isTerminal = false) .invalidRequest
  ensure (aggregate.lease.all (fun lease => decide (lease.expiresAtMs ≤ nowMs)) = true) .leaseConflict
  let expiresAtMs ← okOr (checkedAdd 64 nowMs durationMs) .arithmeticOverflow
  toStore (ExecutionLease.new runId fence expiresAtMs)

/-- The lease that `renew_lease` grants. -/
def extendLease (ownerId : Uuid) (lease : ExecutionLease) (durationMs nowMs : ℕ) (state : State) :
    StoreResult ExecutionLease := do
  ensure (durationMs ≠ 0) .invalidRequest
  let aggregate ← okOr state.runs[(ownerId, lease.runId)]? .notFound
  ensure (aggregate.lease = some lease) .leaseExpired
  ensure (nowMs < lease.expiresAtMs) .leaseExpired
  let expiresAtMs ← okOr (checkedAdd 64 nowMs durationMs) .arithmeticOverflow
  toStore (ExecutionLease.new lease.runId lease.fence expiresAtMs)

def State.setLease (state : State) (ownerId runId : Uuid) (lease : ExecutionLease) : State :=
  { state with runs := state.runs.modify (ownerId, runId) fun aggregate => { aggregate with lease := some lease } }

/-- `acquire_lease`; `fence` is the `Uuid::new_v4` of the call. -/
def acquireLease (ownerId runId : Uuid) (expectedRunVersion durationMs nowMs : ℕ) (fence : Uuid) (state : State) :
    StoreResult ExecutionLease × State :=
  match grantLease ownerId runId expectedRunVersion durationMs nowMs fence state with
  | .error e => (.error e, state)
  | .ok lease => (.ok lease, state.setLease ownerId runId lease)

def renewLease (ownerId : Uuid) (lease : ExecutionLease) (durationMs nowMs : ℕ) (state : State) :
    StoreResult ExecutionLease × State :=
  match extendLease ownerId lease durationMs nowMs state with
  | .error e => (.error e, state)
  | .ok renewed => (.ok renewed, state.setLease ownerId lease.runId renewed)

/-! ## Commits -/

/-- The answer of `commit_execution` to a command that has a receipt. -/
def replayCommit (digests : Digests) (ownerId : Uuid) (commit : ExecutionCommit) (receipt : CommandReceipt)
    (state : State) : StoreResult ExecutionCommitOutcome :=
  match receipt.replay digests commit.command with
  | .error _ => .error .commandConflict
  | .ok _ => okOr state.outcomes[(ownerId, commit.command.id)]? .notFound

def CommitPatch.outcome (patch : CommitPatch) : ExecutionCommitOutcome :=
  { storedRun := patch.stored, receipt := patch.receipt, checkpointVersion := patch.checkpointVersion
    checkpoint := patch.checkpoint, grantConsumption := patch.grantConsumption }

/-- The checks of `commit_execution` before the receipt is looked up. -/
def checkCommit (digests : Digests) (commit : ExecutionCommit) : StoreResult Unit := do
  commit.validateBounds digests
  ensure (commit.command.targetRunId = commit.lease.runId ∧ commit.targetRun.id = commit.lease.runId) .invalidRequest

def commitExecution (digests : Digests) (ownerId : Uuid) (commit : ExecutionCommit) (nowMs : ℕ) (state : State) :
    StoreResult ExecutionCommitOutcome × State :=
  match checkCommit digests commit with
  | .error e => (.error e, state)
  | .ok () =>
    match state.receipts[(ownerId, commit.command.id)]? with
    | some receipt => (replayCommit digests ownerId commit receipt state, state)
    | none =>
      match buildCommitPatch digests state ownerId commit nowMs with
      | .error e => (.error e, state)
      | .ok patch => (.ok patch.outcome, applyCommitPatch state ownerId commit.lease.runId patch patch.outcome)

/-! ## Calls -/

/-- One call of the store, with its arguments, clock reading and fresh fence. -/
inductive Op
  | applyPolicy (ownerId : Uuid) (change : AuthoritativePolicyChange)
  | applyGrant (ownerId : Uuid) (change : AuthoritativeGrantChange)
  | createRun (ownerId : Uuid) (request : CreateRun)
  | retryRun (ownerId : Uuid) (request : RetryRun)
  | acquireLease (ownerId runId : Uuid) (expectedRunVersion durationMs nowMs : ℕ) (fence : Uuid)
  | renewLease (ownerId : Uuid) (lease : ExecutionLease) (durationMs nowMs : ℕ)
  | commit (ownerId : Uuid) (commit : ExecutionCommit) (nowMs : ℕ)

inductive Reply
  | policy (state : AuthoritativePolicyState)
  | grant (state : AuthoritativeGrantState)
  | run (stored : StoredRun)
  | retry (outcome : RetryRunOutcome)
  | lease (lease : ExecutionLease)
  | outcome (outcome : ExecutionCommitOutcome)

def reply {α : Type} (wrap : α → Reply) (r : StoreResult α × State) : StoreResult Reply × State :=
  (r.1.map wrap, r.2)

def exec (digests : Digests) (op : Op) (state : State) : StoreResult Reply × State :=
  match op with
  | .applyPolicy ownerId change => reply .policy (applyAuthoritativePolicy ownerId change state)
  | .applyGrant ownerId change => reply .grant (applyAuthoritativeGrant ownerId change state)
  | .createRun ownerId request => reply .run (AnimaCore.createRun ownerId request state)
  | .retryRun ownerId request => reply .retry (AnimaCore.retryRun digests ownerId request state)
  | .acquireLease ownerId runId expectedRunVersion durationMs nowMs fence =>
    reply .lease (AnimaCore.acquireLease ownerId runId expectedRunVersion durationMs nowMs fence state)
  | .renewLease ownerId lease durationMs nowMs =>
    reply .lease (AnimaCore.renewLease ownerId lease durationMs nowMs state)
  | .commit ownerId commit nowMs => reply .outcome (commitExecution digests ownerId commit nowMs state)

/-- The state after one call, successful or not. -/
def step (digests : Digests) (state : State) (op : Op) : State := (exec digests op state).2

/-! ## A sample store

One owner, one serial session and one run, with the calls that the examples of the later modules are made of. -/

namespace Sample

/-- A digest that tells the values of the sample calls apart. -/
def digests : Digests :=
  { command := fun sessionId payload => sessionId + payload.runId + BitVec.ofNat 128 payload.kind.ctorIdx
    attempt := fun r => some (BitVec.ofNat 256 (r.invocation.id.toNat * 2 ^ 64 + r.attemptNumber * 8 + r.state.ctorIdx))
    completed := fun r => some (BitVec.ofNat 256 (r.invocation.id.toNat * 2 ^ 64 + r.attemptNumber * 8))
    grantId := fun id => BitVec.ofNat 256 id.utf8ByteSize
    grantAuthority := fun g => some (BitVec.ofNat 256 g.revision)
    grantScope := fun _ => some 1
    evaluation := fun _ => some 1
    bytes := fun bytes => BitVec.ofNat 256 bytes.length
    checkpointBytes := fun _ => some 1 }

def ownerId : Uuid := 1#128

def sessionId : Uuid := 2#128

def runId : Uuid := 3#128

def definition : DefinitionPin := { schemaVersion := 1, id := "def-a", version := 1, valid := by decide }

def session : Session :=
  { id := sessionId, definition, concurrency := .serial, allowsConcurrentSessions := false, verified := true
    valid := by decide }

def runWire (state : RunState) (pauseReason : Option RunPauseReason) : RunWire :=
  { id := runId, sessionId, definitionId := "def-a", definitionVersion := 1, state, pauseReason
    pendingApproval := none, recoveryPause := none, recoveryBinding := none }

def queued : Run := { runWire .queued none with valid := by decide }

def running : Run := { runWire .running none with valid := by decide }

def paused : Run := { runWire .paused (some .requested) with valid := by decide }

def createRun : Op :=
  .createRun ownerId
    { ownerId, session, run := queued, expectedSessionVersion := 0, concurrencyPolicy := .serial
      initialInput := { ownerId, sessionId, runId, text := "go" }, input_bound := by decide }

def lease : ExecutionLease := { runId, fence := 4#128, expiresAtMs := 1000 }

def acquireLease : Op := .acquireLease ownerId runId 1 1000 0 lease.fence

def command (id : Uuid) (payload : RuntimeCommandPayload)
    (valid : RuntimeCommandWire.validate { id, sessionId, payload } = .ok () := by decide) : RuntimeCommand :=
  { id, sessionId, payload, valid }

/-- A commit at run version `version` that carries only its command. -/
def commit (version : ℕ) (command : RuntimeCommand) (targetRun : Run) : ExecutionCommit :=
  { expectedRunVersion := version, expectedCheckpointVersion := 0, lease, command, events := [], steps := []
    attempts := [], results := [], approval := none, policyGuard := none, dispatchGrant := none, checkpoint := .clear
    targetRun }

def start : ExecutionCommit := commit 1 (command 101#128 (.start runId)) running

def started : State := run (step digests) State.empty [createRun, acquireLease, .commit ownerId start 10]

def event (sequence : ℕ) (eventId : Uuid)
    (valid : RuntimeEventWire.validate
      { schemaVersion := 1, eventId, ownerId, sessionId, runId, timestampMs := 10, sequence, kind := .runStarted
        payload := .none } = .ok () := by decide) : RuntimeEvent :=
  { schemaVersion := 1, eventId, ownerId, sessionId, runId, timestampMs := 10, sequence, kind := .runStarted
    payload := .none, valid }

def manifest : ManifestPin :=
  { id := "cap", version := 1
    schemaDigest := "sha256:0000000000000000000000000000000000000000000000000000000000000000"
    recoveryMode := .inherentlyIdempotent, valid := by decide }

def invocation : LogicalInvocationBinding :=
  { id := 5#128, runId, logicalStepId := "step", capabilityId := "cap", manifestVersion := 1
    canonicalArgumentDigest := 6#128, idempotencyKey := "anima-core:00000000-0000-0000-0000-000000000005" }

def attempt (attemptNumber : ℕ) (state : AttemptRecordState)
    (bound : attemptNumber ≠ 0 ∧ attemptNumber < 2 ^ 32 := by decide) : InvocationAttemptRecord :=
  { invocation, normalizedArguments := none, attemptNumber, state, manifest, recoveryMode := .inherentlyIdempotent
    valid := by simpa [InvocationAttemptRecordWire.validate, invocation, manifest] using bound }

theorem first_bound : 1 ≠ 0 ∧ 1 < 2 ^ 32 := by decide

def installPolicy (definitionId : String)
    (valid : AuthoritativePolicyStateWire.validate
      { ownerId, agentDefinitionId := definitionId, agentDefinitionVersion := 1, revision := 1, status := .active
        validUntilMs := none } = .ok () := by decide) : Op :=
  .applyPolicy ownerId
    (.create { ownerId, agentDefinitionId := definitionId, agentDefinitionVersion := 1, revision := 1
               status := .active, validUntilMs := none, valid })

/-- The guard of the sample invocation, evaluated for a definition. -/
def guard (definitionId : String) : Option DispatchPolicyGuard := do
  let context ← (PolicyContext.new (uuidText ownerId) "actor" definitionId 1 "workspace" 7#128
    { id := "cap", version := 1, riskLevel := .low } invocation 1 { minimumRisk := none, deny := false } 0).toOption
  let evaluation ← (PolicyEngine.evaluate context []).toOption
  (DispatchPolicyGuard.fromCurrentPolicy digests ownerId context [] none evaluation).toOption

def dispatch (definitionId : String) : ExecutionCommit :=
  { commit 2 (command 102#128 (.prepareDispatch runId none)) running with
    attempts := [attempt 1 .dispatching], policyGuard := guard definitionId }

def recovery : RecoveryRecord :=
  { pause := { invocation, attemptNumber := 1, manifest, reason := .retryable, valid := by decide }
    resumeBinding := none, valid := by decide }

def grant : AuthoritativeGrantState :=
  { ownerId, authorityKey := GrantAuthorityKey.fromGrantId digests "grant", fullGrantDigest := manifest.schemaDigest
    scopeDigest := manifest.schemaDigest, revision := 1, status := .active, effect := .autoAllow, maximumRisk := .low
    validFromMs := 0, validUntilMs := none, remainingUses := some 2, owner_valid := by decide }

/-- The first attempt of the sample invocation is dispatched. -/
def dispatched : State :=
  run (step digests) started [installPolicy "def-a", .commit ownerId (dispatch "def-a") 20]

def completed (attemptNumber : ℕ) (bound : attemptNumber ≠ 0 ∧ attemptNumber < 2 ^ 32 := by decide) :
    CompletedInvocationRecord :=
  { invocation, attemptNumber, manifest, recoveryMode := .inherentlyIdempotent
    resultRef := { value := 8#128, valid := by decide }
    valid := by
      simpa [CompletedInvocationRecordWire.validate, InvocationAttemptRecordWire.validate, invocation, manifest] using
        bound }

def result : DurableCapabilityResult :=
  { resultRef := 8#128
    contentDigest := "jcs-v1:0000000000000000000000000000000000000000000000000000000000000000"
    schemaDigest := manifest.schemaDigest, sizeBytes := 1, status := .completed, valid := by decide +kernel }

/-- A result for an attempt that was never dispatched, while the first attempt is. -/
def progress : ExecutionCommit :=
  { commit 3 (command 103#128 (.recordProgress runId)) running with
    attempts := [attempt 5 .completed], results := [{ completed := completed 5, result }] }

/-- The first attempt is given up and a second one is dispatched. -/
def redispatch : ExecutionCommit :=
  { commit 4 (command 104#128 (.prepareDispatch runId (some recovery))) running with
    attempts := [attempt 1 .uncertain, attempt 2 .dispatching], policyGuard := guard "def-a" }

def logged : State :=
  run (step digests) State.empty [createRun, acquireLease,
    .commit ownerId { start with events := [event 1 11#128] } 10]

def stepRecord : Step := { runId, logicalStepId := "step", kind := .capability, attempts := [], valid := by decide }

/-- A checkpoint that lists the first attempt as dispatching. -/
def checkpointWire (state : RunState) (pauseReason : Option RunPauseReason) : CheckpointWire :=
  { schemaVersion := 1, runtimeSchemaVersion := 1, definition, manifests := [manifest], sessionId, runId
    lastDurableEventSequence := 1, state, pauseReason
    cursor := some { logicalInvocationId := invocation.id, attemptNumber := 1, logicalStepId := "step", valid := by decide }
    attempts := [attempt 1 .dispatching], providerTranscript := [], messageContextRefs := [], modelContextRefs := []
    completedInvocations := [], uncertainInvocations := [], pendingApproval := none, budget := {}, usage := {}
    memoryRefs := [], artifactRefs := [] }

def checkpointRunning : CheckpointV1 := { checkpointWire .running none with valid := by decide +kernel }

def checkpointPaused : CheckpointV1 := { checkpointWire .paused (some .requested) with valid := by decide +kernel }

/-- The dispatch of the first attempt, with a checkpoint. -/
def saveDispatch : ExecutionCommit :=
  { dispatch "def-a" with
    events := [event 1 11#128], steps := [stepRecord], checkpoint := .replace checkpointRunning }

/-- The first attempt is listed twice as uncertain, beside a checkpoint that lists it as dispatching. -/
def savePause : ExecutionCommit :=
  { commit 3 (command 103#128 (.pause runId .requested (some recovery))) paused with
    expectedCheckpointVersion := 1, attempts := [attempt 1 .uncertain, attempt 1 .uncertain]
    checkpoint := .replace checkpointPaused }

def saved : State :=
  run (step digests) started [installPolicy "def-a", .commit ownerId saveDispatch 20]

end Sample

end AnimaCore
