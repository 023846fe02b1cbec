import AnimaCore.Execution.Store

/-!
# AnimaCore.Execution.CommitPatch — the state of the in-memory store and the patch of a commit

`State` and `RunAggregate` of `execution/memory_store.rs`, `build_commit_patch` and `apply_commit_patch`.  The patch
builder is one long function of early returns in the source; here each of its blocks is a function of its own, and
`buildCommitPatch` calls them in the order of the source, so that the first check that fails is the same one.
-/

namespace AnimaCore

open Lib

/-! ## State -/

structure StoredSession where
  version : ℕ
  ownerId : Uuid
  definition : DefinitionPin
  policy : SessionConcurrencyPolicy
  deriving DecidableEq

structure StoredDurableResult where
  completed : CompletedInvocationRecord
  result : DurableCapabilityResult
  deriving DecidableEq

structure RunAggregate where
  stored : StoredRun
  lease : Option ExecutionLease
  checkpointVersion : ℕ
  checkpoint : Option CheckpointV1
  events : List RuntimeEvent
  steps : Table String Step
  stepOrder : Table ℕ String
  nextStepSequence : ℕ
  attempts : Table AttemptKey InvocationAttemptRecord
  attemptOrder : Table ℕ AttemptKey
  nextAttemptSequence : ℕ
  attemptsFingerprint : HistoryFingerprint
  results : Table Uuid StoredDurableResult
  completedFingerprint : HistoryFingerprint

/-- The aggregate that `create_run` and `retry_run` insert. -/
def RunAggregate.fresh (stored : StoredRun) : RunAggregate :=
  { stored, lease := none, checkpointVersion := 0, checkpoint := none, events := [], steps := ∅, stepOrder := ∅
    nextStepSequence := 1, attempts := ∅, attemptOrder := ∅, nextAttemptSequence := 1, attemptsFingerprint := 0
    results := ∅, completedFingerprint := 0 }

structure CommandIndexRecord where
  sessionId : Uuid
  runId : Uuid
  kind : RuntimeCommandKind
  payloadDigest : Uuid
  deriving DecidableEq

structure ApprovalIndexRecord where
  runId : Uuid
  requestedAtMs : ℤ
  expiresAtMs : ℤ
  decisionCommandId : Option Uuid
  decisionKind : Option ApprovalDecisionKind
  decidedAtMs : Option ℤ
  deriving DecidableEq

/-- The key of a grant consumption: owner, authority key, revision, invocation. -/
abbrev ConsumptionKey := Uuid × String × ℕ × Uuid

structure State where
  sessions : Table (Uuid × Uuid) StoredSession
  runs : Table (Uuid × Uuid) RunAggregate
  serialClaims : Table (Uuid × Uuid) Uuid
  receipts : Table (Uuid × Uuid) CommandReceipt
  commands : Table (Uuid × Uuid) CommandIndexRecord
  outcomes : Table (Uuid × Uuid) ExecutionCommitOutcome
  authoritativeGrants : Table (Uuid × String) AuthoritativeGrantState
  authoritativePolicies : Table (Uuid × String × ℕ) AuthoritativePolicyState
  grantConsumptions : KeySet ConsumptionKey
  approvals : Table (Uuid × Uuid) ApprovalIndexRecord

/-- `State::default`. -/
def State.empty : State :=
  { sessions := ∅, runs := ∅, serialClaims := ∅, receipts := ∅, commands := ∅, outcomes := ∅
    authoritativeGrants := ∅, authoritativePolicies := ∅, grantConsumptions := ∅, approvals := ∅ }

/-! ## Transitions that a command may make -/

/-- The attempts of a commit in state `Dispatching`. -/
def dispatchingAttempts (attempts : List InvocationAttemptRecord) : List InvocationAttemptRecord :=
  attempts.filter fun a => a.state == .dispatching

/-- The attempt that a recovery pause names, in the given state. -/
def exactRecoveryAttempt (pause : RecoveryPauseRecord) (number : ℕ) (state : AttemptRecordState)
    (a : InvocationAttemptRecord) : Bool :=
  a.state == state && decide (a.invocation = pause.invocation) && a.attemptNumber == number &&
    decide (a.manifest = pause.manifest) && a.recoveryMode == pause.manifest.recoveryMode

def retriesBinding (binding : RecoveryResumeBinding) (a : InvocationAttemptRecord) : Bool :=
  a.invocation.id == binding.logicalInvocationId && a.attemptNumber == binding.retryAttemptNumber &&
    a.state == .pending && a.manifest.id == binding.manifestId && a.manifest.version == binding.manifestVersion &&
    a.manifest.schemaDigest == binding.manifestDigest && a.recoveryMode == binding.recoveryMode

/-- The part of `valid_command_transition` that depends on the command's kind. -/
def validKindTransition (current target : Run) (command : RuntimeCommand) (approval : Option ApprovalGrantMutation)
    (dispatchGrant : Option DispatchGrantMutation) (attempts : List InvocationAttemptRecord) : Bool :=
  match command.kind with
  | .start => approval.isNone && current.state == .queued && target.state == .running
  | .recordProgress =>
    approval.isNone && dispatchGrant.isNone && (dispatchingAttempts attempts).isEmpty &&
      current.state == .running && decide (current = target)
  | .prepareDispatch =>
    approval.isNone && (dispatchingAttempts attempts).length == 1 && current.state == .running &&
      decide (current = target)
  | .requestApproval =>
    approval.isNone && command.approvalRequest.any fun request =>
      decide (current.waitForApproval request = .ok target)
  | .requireRecovery =>
    approval.isNone && command.recoveryRecord.any fun recovery =>
      attempts.any (exactRecoveryAttempt recovery.pause recovery.pause.attemptNumber .uncertain) &&
        decide (current.requireRecovery recovery = .ok target)
  | .pause =>
    approval.isNone && command.pauseReason.any fun reason =>
      decide (current.transition .paused (some reason) = .ok target)
  | .resume =>
    approval.isNone && dispatchGrant.isNone && (dispatchingAttempts attempts).isEmpty &&
      decide (current.resume = .ok target)
  | .retry => false
  | .resumeApproval =>
    match current.applyResumeCommand command (approval.map (·.claim)) none with
    | .ok outcome => decide (outcome.run = target)
    | .error _ => false
  | .resumeRecovery =>
    approval.isNone && current.state == .recoveryRequired &&
      (current.recoveryPause.any fun pause => command.recoveryBinding.any fun binding =>
        decide (current.recoveryBinding = some binding) && pause.matchesResumeBinding binding &&
          attempts.any (retriesBinding binding)) &&
      target.state == .running && target.pauseReason.isNone && target.pendingApproval.isNone &&
      target.recoveryPause.isNone
  | .complete => approval.isNone && decide (current.transition .completed none = .ok target)
  | .fail =>
    approval.isNone &&
      match current.state with
      | .running => decide (current.transition .failed none = .ok target)
      | .recoveryRequired => decide (current.resolveRecoveryTerminal .fail = .ok target)
      | _ => false
  | .cancel => approval.isNone && decide (current.cancelAtBoundary = .ok target)

def validCommandTransition (current target : Run) (command : RuntimeCommand)
    (approval : Option ApprovalGrantMutation) (dispatchGrant : Option DispatchGrantMutation)
    (attempts : List InvocationAttemptRecord) : Bool :=
  current.id == target.id && current.sessionId == target.sessionId && current.definitionId == target.definitionId &&
    current.definitionVersion == target.definitionVersion && command.sessionId == current.sessionId &&
    command.targetRunId == current.id && !current.state.isTerminal &&
    ((dispatchingAttempts attempts).isEmpty || command.kind == .prepareDispatch || command.kind == .resumeApproval) &&
    validKindTransition current target command approval dispatchGrant attempts

/-! ## Blocks of `build_commit_patch` -/

/-- Run version, checkpoint version, lease and transition. -/
def checkCommitHeader (aggregate : RunAggregate) (commit : ExecutionCommit) (nowMs : ℕ) : StoreResult Unit := do
  ensure (aggregate.stored.runVersion = commit.expectedRunVersion) .versionConflict
  ensure (aggregate.checkpointVersion = commit.expectedCheckpointVersion) .checkpointConflict
  ensure (aggregate.lease = some commit.lease ∧ nowMs < commit.lease.expiresAtMs) .leaseExpired
  ensure (validCommandTransition aggregate.stored.run commit.targetRun commit.command commit.approval
    commit.dispatchGrant commit.attempts = true) .invalidRequest

/-- A recovery dispatch turns exactly its attempt uncertain and dispatches exactly the next one. -/
def checkRecoveryDispatch (commit : ExecutionCommit) : StoreResult Unit :=
  match commit.command.kind, commit.command.recoveryRecord with
  | .prepareDispatch, some recovery => do
    let expectedRetryNumber ← okOr (checkedAdd 32 recovery.attemptNumber 1) .lineageConflict
    ensure (commit.attempts.length = 2 ∧
      commit.attempts.countP (exactRecoveryAttempt recovery.pause recovery.attemptNumber .uncertain) = 1 ∧
      commit.attempts.countP (exactRecoveryAttempt recovery.pause expectedRetryNumber .dispatching) = 1)
      .lineageConflict
  | _, _ => .ok ()

/-- The policy guard: one for one dispatching attempt, none without. -/
def checkPolicyGuard (state : State) (ownerId : Uuid) (commit : ExecutionCommit) (nowMs : ℕ) : StoreResult Unit :=
  match dispatchingAttempts commit.attempts, commit.policyGuard with
  | [attempt], some guard =>
    if guard.matchesAttempt ownerId attempt then do
      let authority ← okOr
        state.authoritativePolicies[(ownerId, guard.agentDefinitionId, guard.agentDefinitionVersion)]? .policyConflict
      ensure (authority.validates guard nowMs = true) .policyConflict
    else .error .policyConflict
  | [], none => .ok ()
  | _, _ => .error .policyConflict

/-- The events continue the history, inside the run's scope; the answer is the session and the last sequence. -/
def checkEvents (state : State) (ownerId runId : Uuid) (aggregate : RunAggregate) (commit : ExecutionCommit) :
    StoreResult (StoredSession × ℕ) := do
  let firstSequence ← okOr (checkedAdd 64 aggregate.events.length 1) .arithmeticOverflow
  let lastSequence ← okOr (checkedAdd 64 aggregate.events.length commit.events.length) .arithmeticOverflow
  ensure (RuntimeEvent.validateBatch firstSequence commit.events = .ok ()) .eventConflict
  let session ← okOr state.sessions[(ownerId, aggregate.stored.run.sessionId)]? .notFound
  ensure (∀ e ∈ commit.events, e.ownerId = session.ownerId ∧ e.runId = runId ∧
    e.sessionId = aggregate.stored.run.sessionId) .eventConflict
  return (session, lastSequence)

/-- A replacing checkpoint is of this run in its target state, at the last sequence. -/
def checkReplacementHeader (runId : Uuid) (aggregate : RunAggregate) (commit : ExecutionCommit) (lastSequence : ℕ) :
    StoreResult Unit :=
  match commit.checkpoint with
  | .replace checkpoint =>
    ensure (checkpoint.runId = runId ∧ checkpoint.sessionId = aggregate.stored.run.sessionId ∧
      checkpoint.definition.id = aggregate.stored.run.definitionId ∧
      checkpoint.definition.version = aggregate.stored.run.definitionVersion ∧
      checkpoint.state = commit.targetRun.state ∧ checkpoint.pauseReason = commit.targetRun.pauseReason ∧
      checkpoint.pendingApproval.map (·.request) = commit.targetRun.pendingApproval ∧
      (commit.targetRun.state = .recoveryRequired → checkpoint.uncertainInvocations.any (fun record =>
        decide (commit.targetRun.recoveryPause = some record.pause) &&
          decide (commit.targetRun.recoveryBinding = record.resumeBinding)) = true) ∧
      checkpoint.lastDurableEventSequence = lastSequence) .checkpointConflict
  | .unchanged | .clear => .ok ()

structure GrantPatch where
  update : Option AuthoritativeGrantState := none
  consumptionKey : Option ConsumptionKey := none

/-- The counted part of an approval's grant: the consumption key and the grant after it. -/
def consumeApprovalGrant (digests : Digests) (state : State) (ownerId : Uuid) (approval : ApprovalGrantMutation)
    (binding : GrantAuthorityBinding) (authoritative : AuthoritativeGrantState) (nowMs : ℕ) :
    StoreResult GrantPatch :=
  match approval.grantConsumption, approval.grantRemainingUses with
  | some consumption, some remaining => do
    let snapshot ← okOr approval.claim.grantConsumptionSnapshot .grantConflict
    ensure (snapshot.remainingUses = remaining ∧ binding.matchesConsumption digests consumption = true) .grantConflict
    let key : ConsumptionKey :=
      (ownerId, binding.authorityKey.asStr, consumption.grantRevision, consumption.logicalInvocationId)
    ensure (key ∉ state.grantConsumptions) .grantAlreadyConsumed
    let consumed ← authoritative.consume binding nowMs
    return { update := some consumed, consumptionKey := some key }
  | none, none => return { update := some authoritative }
  | _, _ => .error .grantConflict

def patchApprovalGrant (digests : Digests) (state : State) (ownerId : Uuid) (approval : ApprovalGrantMutation)
    (nowMs : ℕ) : StoreResult GrantPatch :=
  match approval.grantId, approval.grantRevision, approval.grantRemainingUses with
  | some _, some grantRevision, claimedRemaining => do
    let binding ← okOr approval.claim.grantAuthorityBinding .grantConflict
    let authoritative ← okOr state.authoritativeGrants[(ownerId, binding.authorityKey.asStr)]? .grantConflict
    authoritative.validateBinding binding nowMs
    ensure (authoritative.revision = grantRevision ∧ authoritative.remainingUses = claimedRemaining) .grantConflict
    consumeApprovalGrant digests state ownerId approval binding authoritative nowMs
  | none, none, none =>
    if approval.grantConsumption = none then .ok {} else .error .grantConflict
  | _, _, _ => .error .grantConflict

/-- The approval block: the resumed run is the target, and its grant is spent. -/
def patchApproval (digests : Digests) (state : State) (ownerId : Uuid) (aggregate : RunAggregate)
    (commit : ExecutionCommit) (nowMs : ℕ) : StoreResult GrantPatch :=
  match commit.approval with
  | none => .ok {}
  | some approval =>
    match aggregate.stored.run.applyResumeCommand commit.command (some approval.claim) none with
    | .error _ => .error .invalidRequest
    | .ok resumed => do
      ensure (resumed.run = commit.targetRun ∧ resumed.grantConsumption = approval.grantConsumption) .invalidRequest
      patchApprovalGrant digests state ownerId approval nowMs

/-- The dispatch-grant block, which replaces the grant patch of the approval block. -/
def patchDispatchGrant (digests : Digests) (state : State) (ownerId : Uuid) (commit : ExecutionCommit) (nowMs : ℕ)
    (before : GrantPatch) : StoreResult GrantPatch :=
  match commit.dispatchGrant with
  | none => .ok before
  | some dispatch => do
    let attempt ← okOr (dispatchingAttempts commit.attempts).head? .grantConflict
    ensure (commit.command.kind = .prepareDispatch ∧ dispatch.matchesAttempt ownerId attempt = true ∧
      (dispatchingAttempts commit.attempts).length = 1) .grantConflict
    let binding := dispatch.authorityBinding
    let authoritative ← okOr state.authoritativeGrants[(ownerId, binding.authorityKey.asStr)]? .grantConflict
    ensure (authoritative.remainingUses = some dispatch.remainingUses ∧
      binding.matchesConsumption digests dispatch.consumption = true) .grantConflict
    let key : ConsumptionKey := (ownerId, binding.authorityKey.asStr, dispatch.consumption.grantRevision,
      dispatch.consumption.logicalInvocationId)
    ensure (key ∉ state.grantConsumptions) .grantAlreadyConsumed
    let consumed ← authoritative.consume binding nowMs
    return { update := some consumed, consumptionKey := some key }

def patchGrants (digests : Digests) (state : State) (ownerId : Uuid) (aggregate : RunAggregate)
    (commit : ExecutionCommit) (nowMs : ℕ) : StoreResult GrantPatch := do
  ensure (¬(commit.approval.isSome ∧ commit.dispatchGrant.isSome)) .invalidRequest
  let approval ← patchApproval digests state ownerId aggregate commit nowMs
  patchDispatchGrant digests state ownerId commit nowMs approval

/-! ### Steps -/

structure StepPatches where
  patches : Table String (ℕ × Step)
  nextSequence : ℕ

def stepPatchStep (runId : Uuid) (aggregate : RunAggregate) (acc : StepPatches) (step : Step) :
    StoreResult StepPatches := do
  ensure (step.runId = runId) .invalidRequest
  match aggregate.steps[step.logicalStepId]? with
  | some existing => if existing = step then .ok acc else .error .historyConflict
  | none =>
    match acc.patches[step.logicalStepId]? with
    | some (_, existing) => if existing = step then .ok acc else .error .historyConflict
    | none => do
      let nextSequence ← okOr (checkedAdd 64 acc.nextSequence 1) .arithmeticOverflow
      return { patches := acc.patches.insert step.logicalStepId (acc.nextSequence, step), nextSequence }

def patchSteps (runId : Uuid) (aggregate : RunAggregate) (commit : ExecutionCommit) : StoreResult StepPatches :=
  commit.steps.foldlM (stepPatchStep runId aggregate) { patches := ∅, nextSequence := aggregate.nextStepSequence }

/-! ### Attempts -/

structure AttemptPatches where
  patches : Table AttemptKey (ℕ × InvocationAttemptRecord)
  transitionKeys : KeySet AttemptKey
  newAttemptCount : ℕ
  nextSequence : ℕ
  fingerprint : HistoryFingerprint

/-- The in-place transitions of a stored attempt. -/
def legalAttemptTransition (existing attempt : InvocationAttemptRecord) : Bool :=
  (match existing.state, attempt.state with
    | .dispatching, .completed | .dispatching, .uncertain | .pending, .dispatching => true
    | _, _ => false) &&
    decide (existing.invocation = attempt.invocation) && decide (existing.manifest = attempt.manifest) &&
    existing.recoveryMode == attempt.recoveryMode

/-- The sequence a stored attempt has in the order table. -/
def findSequence (order : Table ℕ AttemptKey) (key : AttemptKey) : Option ℕ :=
  (order.toList.find? fun entry => entry.2 == key).map (·.1)

def attemptPatchStep (digests : Digests) (runId : Uuid) (aggregate : RunAggregate) (acc : AttemptPatches)
    (attempt : InvocationAttemptRecord) : StoreResult AttemptPatches := do
  ensure (attempt.invocation.runId = runId) .invalidRequest
  match aggregate.attempts[attempt.key]? with
  | some existing =>
    if existing = attempt then .ok acc
    else if legalAttemptTransition existing attempt then do
      let sequence ← okOr (findSequence aggregate.attemptOrder attempt.key) .historyConflict
      let without ← toStore (acc.fingerprint.includeValue digests.attempt existing)
      let fingerprint ← toStore (HistoryFingerprint.includeValue digests.attempt without attempt)
      return { acc with patches := acc.patches.insert attempt.key (sequence, attempt)
                        transitionKeys := acc.transitionKeys.insert attempt.key, fingerprint }
    else .error .historyConflict
  | none =>
    match acc.patches[attempt.key]? with
    | some (_, existing) => if existing = attempt then .ok acc else .error .historyConflict
    | none => do
      let nextSequence ← okOr (checkedAdd 64 acc.nextSequence 1) .arithmeticOverflow
      let fingerprint ← toStore (acc.fingerprint.includeValue digests.attempt attempt)
      let newAttemptCount ← okOr (checkedAdd 64 acc.newAttemptCount 1) .arithmeticOverflow
      return { acc with patches := acc.patches.insert attempt.key (acc.nextSequence, attempt)
                        newAttemptCount, nextSequence, fingerprint }

def patchAttempts (digests : Digests) (runId : Uuid) (aggregate : RunAggregate) (commit : ExecutionCommit) :
    StoreResult AttemptPatches :=
  commit.attempts.foldlM (attemptPatchStep digests runId aggregate)
    { patches := ∅, transitionKeys := ∅, newAttemptCount := 0, nextSequence := aggregate.nextAttemptSequence
      fingerprint := aggregate.attemptsFingerprint }

/-- The stored attempt of an invocation in state `Dispatching`, the first in key order. -/
def priorDispatch (aggregate : RunAggregate) (invocationId : Uuid) : Option (AttemptKey × InvocationAttemptRecord) :=
  aggregate.attempts.toList.find? fun entry => entry.1.1 == invocationId && entry.2.state == .dispatching

def checkDispatchLineage (aggregate : RunAggregate) (patches : Table AttemptKey (ℕ × InvocationAttemptRecord))
    (entry : AttemptKey × ℕ × InvocationAttemptRecord) : StoreResult Unit :=
  let dispatching := entry.2.2
  if dispatching.state ≠ .dispatching ∨ entry.1 ∈ aggregate.attempts then .ok ()
  else
    match priorDispatch aggregate dispatching.invocation.id with
    | none =>
      ensure (dispatching.attemptNumber = 1 ∧
        aggregate.attempts.keys.all (fun key => key.1 != dispatching.invocation.id) = true) .lineageConflict
    | some (priorKey, prior) => do
      let expectedNumber ← okOr (checkedAdd 32 priorKey.2 1) .lineageConflict
      ensure (dispatching.attemptNumber = expectedNumber ∧ prior.invocation = dispatching.invocation ∧
        prior.manifest = dispatching.manifest ∧ prior.recoveryMode = dispatching.recoveryMode ∧
        (patches[priorKey]?.any fun patch => patch.2.state == .uncertain &&
          decide (patch.2.invocation = prior.invocation) && decide (patch.2.manifest = prior.manifest) &&
          patch.2.recoveryMode == prior.recoveryMode) = true) .lineageConflict

/-! ### Results -/

structure ResultPatches where
  patches : Table Uuid StoredDurableResult
  fingerprint : HistoryFingerprint

/-- The attempt that a result completes, after the commit. -/
def attemptAfter (aggregate : RunAggregate) (patches : Table AttemptKey (ℕ × InvocationAttemptRecord))
    (key : AttemptKey) : Option InvocationAttemptRecord :=
  match patches[key]? with
  | some patch => some patch.2
  | none => aggregate.attempts[key]?

def resultPatchStep (digests : Digests) (runId : Uuid) (aggregate : RunAggregate)
    (attempts : Table AttemptKey (ℕ × InvocationAttemptRecord)) (acc : ResultPatches)
    (mutation : DurableResultMutation) : StoreResult ResultPatches := do
  let completed := mutation.completed
  ensure (completed.invocation.runId = runId ∧ completed.resultRef.value = mutation.result.resultRef) .lineageConflict
  let attempt ← okOr (attemptAfter aggregate attempts completed.key) .lineageConflict
  ensure (attempt.invocation = completed.invocation ∧ attempt.state = .completed ∧
    attempt.manifest = completed.manifest ∧ attempt.recoveryMode = completed.recoveryMode ∧
    mutation.result.schemaDigest = attempt.manifest.schemaDigest) .lineageConflict
  let value : StoredDurableResult := { completed, result := mutation.result }
  match aggregate.results[completed.invocation.id]? with
  | some existing => if existing = value then .ok acc else .error .resultConflict
  | none =>
    match acc.patches[completed.invocation.id]? with
    | some existing => if existing = value then .ok acc else .error .resultConflict
    | none => do
      let fingerprint ← toStore (acc.fingerprint.includeValue digests.completed completed)
      return { patches := acc.patches.insert completed.invocation.id value, fingerprint }

def patchResults (digests : Digests) (runId : Uuid) (aggregate : RunAggregate)
    (attempts : Table AttemptKey (ℕ × InvocationAttemptRecord)) (commit : ExecutionCommit) :
    StoreResult ResultPatches :=
  commit.results.foldlM (resultPatchStep digests runId aggregate attempts)
    { patches := ∅, fingerprint := aggregate.completedFingerprint }

/-- An in-place transition is backed by the result, the recovery record or the approval of the commit. -/
def checkAttemptTransition (aggregate : RunAggregate) (commit : ExecutionCommit) (attempts : AttemptPatches)
    (results : Table Uuid StoredDurableResult) (key : AttemptKey) : StoreResult Unit := do
  let attempt ← okOr (attempts.patches[key]?.map (·.2)) .historyConflict
  match attempt.state with
  | .completed =>
    ensure ((results[attempt.invocation.id]?.any fun stored =>
      decide (stored.completed.invocation = attempt.invocation) &&
        stored.completed.attemptNumber == attempt.attemptNumber &&
        decide (stored.completed.manifest = attempt.manifest) &&
        stored.completed.recoveryMode == attempt.recoveryMode) = true) .lineageConflict
  | .uncertain =>
    ensure ((commit.command.recoveryRecord.any fun recovery =>
      decide (recovery.pause.invocation = attempt.invocation) &&
        recovery.pause.attemptNumber == attempt.attemptNumber &&
        decide (recovery.pause.manifest = attempt.manifest) &&
        recovery.pause.manifest.recoveryMode == attempt.recoveryMode) = true) .lineageConflict
  | .dispatching =>
    ensure (commit.command.kind = .resumeApproval ∧ commit.approval.isSome ∧
      aggregate.stored.run.state = .waitingForApproval ∧ commit.targetRun.state = .running ∧
      (aggregate.stored.run.pendingApproval.any fun request =>
        request.logicalInvocationId == attempt.invocation.id &&
          request.canonicalArgumentDigest == attempt.invocation.canonicalArgumentDigest &&
          request.capabilityId == attempt.invocation.capabilityId &&
          request.manifestVersion == attempt.invocation.manifestVersion) = true) .lineageConflict
  | .pending => .error .historyConflict

/-! ### Checkpoint freshness -/

def CheckpointV1.attemptsFingerprint (digests : Digests) (c : CheckpointV1) : ExecResult HistoryFingerprint :=
  HistoryFingerprint.fromValues digests.attempt c.attempts

def CheckpointV1.completedFingerprint (digests : Digests) (c : CheckpointV1) : ExecResult HistoryFingerprint :=
  HistoryFingerprint.fromValues digests.completed c.completedInvocations

/-- A replacing checkpoint lists the history after the commit, by length and fingerprint. -/
def checkReplacementHistory (digests : Digests) (aggregate : RunAggregate) (commit : ExecutionCommit)
    (steps : StepPatches) (attempts : AttemptPatches) (results : ResultPatches) : StoreResult Unit :=
  match commit.checkpoint with
  | .replace checkpoint => do
    let expectedAttempts ← okOr (checkedAdd 64 aggregate.attempts.size attempts.newAttemptCount) .arithmeticOverflow
    let expectedCompleted ← okOr (checkedAdd 64 aggregate.results.size results.patches.size) .arithmeticOverflow
    ensure (checkpoint.attempts.length = expectedAttempts ∧
      checkpoint.completedInvocations.length = expectedCompleted ∧
      checkpoint.attemptsFingerprint digests = .ok attempts.fingerprint ∧
      checkpoint.completedFingerprint digests = .ok results.fingerprint ∧
      checkpoint.cursor.all (fun cursor => decide (cursor.logicalStepId ∈ aggregate.steps) ||
        decide (cursor.logicalStepId ∈ steps.patches)) = true) .checkpointConflict
  | .unchanged | .clear => .ok ()

/-- An unchanged checkpoint needs an unchanged aggregate; a terminal run has none. -/
def checkCheckpointDecision (aggregate : RunAggregate) (commit : ExecutionCommit) (steps : StepPatches)
    (attempts : AttemptPatches) (results : ResultPatches) : StoreResult Unit := do
  ensure (commit.checkpoint = .unchanged → aggregate.stored.run = commit.targetRun ∧ commit.events = [] ∧
    steps.patches.isEmpty = true ∧ attempts.patches.isEmpty = true ∧ results.patches.isEmpty = true)
    .checkpointConflict
  ensure (commit.targetRun.state.isTerminal = true → commit.checkpoint = .clear) .checkpointConflict

/-- The checkpoint generation after the commit. -/
def nextCheckpointVersion (aggregate : RunAggregate) (commit : ExecutionCommit) : StoreResult ℕ :=
  match commit.checkpoint with
  | .unchanged => .ok aggregate.checkpointVersion
  | .replace _ => okOr (checkedAdd 64 aggregate.checkpointVersion 1) .arithmeticOverflow
  | .clear =>
    if aggregate.checkpoint.isSome then okOr (checkedAdd 64 aggregate.checkpointVersion 1) .arithmeticOverflow
    else .ok aggregate.checkpointVersion

/-! ### Run, session and approval index -/

/-- The stored run after the commit, and the session update of a terminal run that holds its session's claim. -/
def patchStored (state : State) (ownerId runId : Uuid) (aggregate : RunAggregate) (commit : ExecutionCommit)
    (session : StoredSession) : StoreResult (StoredRun × Option StoredSession) := do
  let runVersion ← okOr (checkedAdd 64 aggregate.stored.runVersion 1) .arithmeticOverflow
  let stored ← StoredRun.newWithInitialInput
    { ownerId, run := commit.targetRun, runVersion, sessionVersion := aggregate.stored.sessionVersion
      initialInput := aggregate.stored.initialInput }
  if commit.targetRun.state.isTerminal = true ∧
      state.serialClaims[(ownerId, commit.targetRun.sessionId)]? = some runId then do
    let version ← okOr (checkedAdd 64 session.version 1) .arithmeticOverflow
    let released ← StoredRun.newWithInitialInput
      { ownerId, run := commit.targetRun, runVersion, sessionVersion := version
        initialInput := aggregate.stored.initialInput }
    return (released, some { session with version })
  else return (stored, none)

/-- The lease after the commit: dropped by an approval wait and by a requested pause. -/
def nextLease (aggregate : RunAggregate) (commit : ExecutionCommit) : Option ExecutionLease :=
  if commit.targetRun.state = .waitingForApproval ∨
      (commit.targetRun.state = .paused ∧ commit.targetRun.pauseReason = some .requested) then none
  else aggregate.lease

/-- The approval index entry that a request or a decision writes. -/
def approvalIndexUpdate (state : State) (ownerId runId : Uuid) (commit : ExecutionCommit) :
    StoreResult (Option (Uuid × ApprovalIndexRecord)) :=
  match commit.command.kind with
  | .requestApproval => do
    let request ← okOr commit.command.approvalRequest .invalidRequest
    ensure ((ownerId, request.logicalInvocationId) ∉ state.approvals) .commandConflict
    return some (request.logicalInvocationId,
      { runId, requestedAtMs := request.requestedAtMs, expiresAtMs := request.expiresAtMs
        decisionCommandId := none, decisionKind := none, decidedAtMs := none })
  | .resumeApproval => do
    let approval ← okOr commit.approval .invalidRequest
    let decision := approval.claim.binding.decision
    let existing ← okOr state.approvals[(ownerId, decision.request.logicalInvocationId)]? .invalidRequest
    ensure (existing.runId = runId ∧ existing.requestedAtMs = decision.request.requestedAtMs ∧
      existing.expiresAtMs = decision.request.expiresAtMs ∧ existing.decisionCommandId = none) .commandConflict
    return some (decision.request.logicalInvocationId,
      { runId, requestedAtMs := existing.requestedAtMs, expiresAtMs := existing.expiresAtMs
        decisionCommandId := some commit.command.id, decisionKind := some decision.kind
        decidedAtMs := some decision.decidedAtMs })
  | _ => .ok none

/-- The approval index entry that a commit removes when it leaves an approval wait without a decision. -/
def approvalIndexRemoval (state : State) (ownerId runId : Uuid) (aggregate : RunAggregate)
    (commit : ExecutionCommit) : StoreResult (Option Uuid) :=
  if commit.command.kind ≠ .resumeApproval ∧ commit.targetRun.pendingApproval = none then
    match aggregate.stored.run.pendingApproval with
    | none => .ok none
    | some pending => do
      let existing ← okOr state.approvals[(ownerId, pending.logicalInvocationId)]? .invalidRequest
      ensure (existing.runId = runId ∧ existing.requestedAtMs = pending.requestedAtMs ∧
        existing.expiresAtMs = pending.expiresAtMs ∧ existing.decisionCommandId = none) .commandConflict
      return some pending.logicalInvocationId
  else .ok none

/-! ## The patch -/

/-- `CommitPatch`; `release_serial_claim` holds exactly if there is a session update. -/
structure CommitPatch where
  stored : StoredRun
  lease : Option ExecutionLease
  checkpointVersion : ℕ
  checkpoint : Option CheckpointV1
  events : List RuntimeEvent
  steps : List (String × ℕ × Step)
  nextStepSequence : ℕ
  attempts : List (AttemptKey × ℕ × InvocationAttemptRecord)
  nextAttemptSequence : ℕ
  attemptsFingerprint : HistoryFingerprint
  results : List (Uuid × StoredDurableResult)
  completedFingerprint : HistoryFingerprint
  authoritativeGrantUpdate : Option AuthoritativeGrantState
  grantConsumptionKey : Option ConsumptionKey
  sessionUpdate : Option StoredSession
  releaseSerialClaim : Bool
  receipt : CommandReceipt
  commandIndex : CommandIndexRecord
  grantConsumption : Option GrantConsumption
  approvalIndexUpdate : Option (Uuid × ApprovalIndexRecord)
  approvalIndexRemoval : Option Uuid

/-- The checkpoint after the commit: `commit_execution` puts a replacement into the patch. -/
def nextCheckpoint (aggregate : RunAggregate) (commit : ExecutionCommit) : Option CheckpointV1 :=
  match commit.checkpoint with
  | .unchanged => aggregate.checkpoint
  | .replace checkpoint => some checkpoint
  | .clear => none

def reportedConsumption (commit : ExecutionCommit) : Option GrantConsumption :=
  match commit.approval.bind (·.grantConsumption) with
  | some consumption => some consumption
  | none => commit.dispatchGrant.map (·.consumption)

/-- `build_commit_patch`, with the checkpoint of the commit. -/
def buildCommitPatch (digests : Digests) (state : State) (ownerId : Uuid) (commit : ExecutionCommit) (nowMs : ℕ) :
    StoreResult CommitPatch := do
  let runId := commit.lease.runId
  let aggregate ← okOr state.runs[(ownerId, runId)]? .notFound
  checkCommitHeader aggregate commit nowMs
  checkRecoveryDispatch commit
  checkPolicyGuard state ownerId commit nowMs
  let (session, lastSequence) ← checkEvents state ownerId runId aggregate commit
  checkReplacementHeader runId aggregate commit lastSequence
  let grants ← patchGrants digests state ownerId aggregate commit nowMs
  let steps ← patchSteps runId aggregate commit
  let attempts ← patchAttempts digests runId aggregate commit
  attempts.patches.toList.forM (checkDispatchLineage aggregate attempts.patches)
  let results ← patchResults digests runId aggregate attempts.patches commit
  attempts.transitionKeys.toList.forM (checkAttemptTransition aggregate commit attempts results.patches)
  checkReplacementHistory digests aggregate commit steps attempts results
  checkCheckpointDecision aggregate commit steps attempts results
  let checkpointVersion ← nextCheckpointVersion aggregate commit
  let (stored, sessionUpdate) ← patchStored state ownerId runId aggregate commit session
  let indexUpdate ← approvalIndexUpdate state ownerId runId commit
  let indexRemoval ← approvalIndexRemoval state ownerId runId aggregate commit
  return { stored, lease := nextLease aggregate commit, checkpointVersion
           checkpoint := nextCheckpoint aggregate commit, events := commit.events
           steps := steps.patches.toList, nextStepSequence := steps.nextSequence
           attempts := attempts.patches.toList, nextAttemptSequence := attempts.nextSequence
           attemptsFingerprint := attempts.fingerprint, results := results.patches.toList
           completedFingerprint := results.fingerprint, authoritativeGrantUpdate := grants.update
           grantConsumptionKey := grants.consumptionKey, sessionUpdate
           releaseSerialClaim := sessionUpdate.isSome
           receipt := CommandReceipt.accepted digests commit.command
           commandIndex := { sessionId := commit.command.sessionId, runId := commit.command.targetRunId
                             kind := commit.command.kind
                             payloadDigest := commit.command.payloadDigest digests }
           grantConsumption := reportedConsumption commit, approvalIndexUpdate := indexUpdate
           approvalIndexRemoval := indexRemoval }

/-- The aggregate part of `apply_commit_patch`. -/
def RunAggregate.patched (aggregate : RunAggregate) (patch : CommitPatch) : RunAggregate :=
  { stored := patch.stored, lease := patch.lease, checkpointVersion := patch.checkpointVersion
    checkpoint := patch.checkpoint, events := aggregate.events ++ patch.events
    steps := patch.steps.foldl (fun steps entry => steps.insert entry.1 entry.2.2) aggregate.steps
    stepOrder := patch.steps.foldl (fun order entry => order.insert entry.2.1 entry.1) aggregate.stepOrder
    nextStepSequence := patch.nextStepSequence
    attempts := patch.attempts.foldl (fun attempts entry => attempts.insert entry.1 entry.2.2) aggregate.attempts
    attemptOrder := patch.attempts.foldl (fun order entry => order.insert entry.2.1 entry.1) aggregate.attemptOrder
    nextAttemptSequence := patch.nextAttemptSequence, attemptsFingerprint := patch.attemptsFingerprint
    results := patch.results.foldl (fun results entry => results.insert entry.1 entry.2) aggregate.results
    completedFingerprint := patch.completedFingerprint }

/-- `apply_commit_patch`; the aggregate is present, since the patch was built from it. -/
def applyCommitPatch (state : State) (ownerId runId : Uuid) (patch : CommitPatch) (outcome : ExecutionCommitOutcome) :
    State :=
  let commandKey := (ownerId, patch.receipt.commandId)
  let sessionKey := (ownerId, patch.stored.run.sessionId)
  let approvals := match patch.approvalIndexRemoval with
    | some id => state.approvals.erase (ownerId, id)
    | none => state.approvals
  { sessions := match patch.sessionUpdate with
      | some session => state.sessions.insert sessionKey session
      | none => state.sessions
    runs := state.runs.modify (ownerId, runId) fun aggregate => aggregate.patched patch
    serialClaims := if patch.releaseSerialClaim then state.serialClaims.erase sessionKey else state.serialClaims
    receipts := state.receipts.insert commandKey patch.receipt
    commands := state.commands.insert commandKey patch.commandIndex
    outcomes := state.outcomes.insert commandKey outcome
    authoritativeGrants := match patch.authoritativeGrantUpdate with
      | some grant => state.authoritativeGrants.insert (ownerId, grant.authorityKey.asStr) grant
      | none => state.authoritativeGrants
    authoritativePolicies := state.authoritativePolicies
    grantConsumptions := match patch.grantConsumptionKey with
      | some key => state.grantConsumptions.insert key
      | none => state.grantConsumptions
    approvals := match patch.approvalIndexUpdate with
      | some (id, record) => approvals.insert (ownerId, id) record
      | none => approvals }

end AnimaCore
