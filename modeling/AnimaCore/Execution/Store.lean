import AnimaCore.Execution.Command
import AnimaCore.Execution.Event

/-!
# AnimaCore.Execution.Store — the requests and answers of an execution store

`execution/store.rs`: authoritative grant and policy states with their compare-and-set changes, the policy guard and
grant mutation a dispatch is committed with, and the request types of the store operations.  The private fields of
a request carry what its constructors check.
-/

namespace AnimaCore

open Lib

/-! ## Run inputs -/

def maxDurableRunInputBytes : ℕ := 32 * 1024

structure DurableRunInput where
  ownerId : Uuid
  sessionId : Uuid
  runId : Uuid
  text : String
  deriving DecidableEq

def DurableRunInput.validate (i : DurableRunInput) : StoreResult Unit :=
  ensure (isNil i.ownerId = false ∧ isNil i.sessionId = false ∧ isNil i.runId = false ∧
    i.text.utf8ByteSize ≤ maxDurableRunInputBytes) .invalidRequest

/-- `DurableRunInput::text`. -/
def DurableRunInput.newText (ownerId sessionId runId : Uuid) (text : String) : StoreResult DurableRunInput := do
  let i : DurableRunInput := { ownerId, sessionId, runId, text }
  i.validate
  return i

/-! ## Authoritative grants -/

/-- `AuthoritativeGrantState`; only a non-nil owner is checked when one is built from a binding. -/
structure AuthoritativeGrantState where
  ownerId : Uuid
  authorityKey : GrantAuthorityKey
  fullGrantDigest : String
  scopeDigest : String
  revision : ℕ
  status : GrantStatus
  effect : GrantEffect
  maximumRisk : RiskLevel
  validFromMs : ℤ
  validUntilMs : Option ℤ
  remainingUses : Option ℕ
  owner_valid : isNil ownerId = false
  deriving DecidableEq

namespace AuthoritativeGrantState

def fromBinding (ownerId : Uuid) (b : GrantAuthorityBinding) : StoreResult AuthoritativeGrantState :=
  if h : isNil ownerId = false then
    .ok { ownerId, authorityKey := b.authorityKey, fullGrantDigest := b.fullGrantDigest
          scopeDigest := b.scopeDigest, revision := b.revision, status := b.status, effect := b.effect
          maximumRisk := b.maximumRisk, validFromMs := b.validFromMs, validUntilMs := b.validUntilMs
          remainingUses := b.remainingUses, owner_valid := h }
  else .error .invalidRequest

def fromGrant (digests : Digests) (ownerId : Uuid) (grant : AutonomyGrant) : StoreResult AuthoritativeGrantState := do
  ensure (isNil ownerId = false) .invalidRequest
  let binding ← toStore (GrantAuthorityBinding.fromGrant digests grant)
  fromBinding ownerId binding

def binding (g : AuthoritativeGrantState) : StoreResult GrantAuthorityBinding :=
  toStore (GrantAuthorityBinding.fromParts
    { authorityKey := g.authorityKey, fullGrantDigest := g.fullGrantDigest, scopeDigest := g.scopeDigest
      revision := g.revision, status := g.status, effect := g.effect, maximumRisk := g.maximumRisk
      validFromMs := g.validFromMs, validUntilMs := g.validUntilMs, remainingUses := g.remainingUses })

def asRevoked (g : AuthoritativeGrantState) : AuthoritativeGrantState := { g with status := .revoked }

def validateBinding (g : AuthoritativeGrantState) (b : GrantAuthorityBinding) (nowMs : ℕ) : StoreResult Unit := do
  ensure (nowMs < 2 ^ 63) .grantConflict
  let own ← g.binding
  ensure (own = b ∧ g.status = .active ∧ g.validFromMs ≤ nowMs ∧
    g.validUntilMs.all (fun u => decide ((nowMs : ℤ) < u)) = true ∧ g.remainingUses ≠ some 0) .grantConflict

def consume (g : AuthoritativeGrantState) (b : GrantAuthorityBinding) (nowMs : ℕ) :
    StoreResult AuthoritativeGrantState := do
  g.validateBinding b nowMs
  let remaining ← okOr g.remainingUses .grantConflict
  ensure (remaining ≠ 0) .grantConflict
  return { g with remainingUses := some (remaining - 1) }

def tableKey (g : AuthoritativeGrantState) : Uuid × String := (g.ownerId, g.authorityKey.asStr)

end AuthoritativeGrantState

inductive AuthoritativeGrantChangeKind
  | create (state : AuthoritativeGrantState)
  | update (expectedRevision : ℕ) (state : AuthoritativeGrantState)
  | revoke (authorityKey : GrantAuthorityKey) (expectedRevision : ℕ)
  deriving DecidableEq

/-- The checks of the constructors of `AuthoritativeGrantChange`. -/
def AuthoritativeGrantChangeKind.valid : AuthoritativeGrantChangeKind → Bool
  | .create _ => true
  | .update expectedRevision state => expectedRevision != 0 && decide (expectedRevision < state.revision)
  | .revoke _ expectedRevision => expectedRevision != 0

structure AuthoritativeGrantChange where
  kind : AuthoritativeGrantChangeKind
  valid : kind.valid = true
  deriving DecidableEq

namespace AuthoritativeGrantChange

def newState (c : AuthoritativeGrantChange) : Option AuthoritativeGrantState :=
  match c.kind with
  | .create state | .update _ state => some state
  | .revoke _ _ => none

def authorityKey (c : AuthoritativeGrantChange) : GrantAuthorityKey :=
  match c.kind with
  | .create state | .update _ state => state.authorityKey
  | .revoke key _ => key

def applyTo (c : AuthoritativeGrantChange) (current : Option AuthoritativeGrantState) :
    StoreResult AuthoritativeGrantState :=
  match c.kind, current with
  | .create next, none => .ok next
  | .update expectedRevision next, some current =>
    if current.ownerId = next.ownerId ∧ current.authorityKey = next.authorityKey ∧
        current.revision = expectedRevision ∧ current.revision < next.revision then .ok next
    else .error .versionConflict
  | .revoke key expectedRevision, some current =>
    if current.authorityKey = key ∧ current.revision = expectedRevision then .ok current.asRevoked
    else .error .versionConflict
  | _, _ => .error .versionConflict

end AuthoritativeGrantChange

/-! ## Authoritative policies -/

inductive AuthoritativePolicyStatus
  | active
  | revoked
  deriving DecidableEq, Repr

/-- The fields of `AuthoritativePolicyState`. -/
structure AuthoritativePolicyStateWire where
  ownerId : Uuid
  agentDefinitionId : String
  agentDefinitionVersion : ℕ
  revision : ℕ
  status : AuthoritativePolicyStatus
  validUntilMs : Option ℕ
  deriving DecidableEq

def AuthoritativePolicyStateWire.validate (p : AuthoritativePolicyStateWire) : StoreResult Unit :=
  ensure (isNil p.ownerId = false ∧ trimmedEmpty p.agentDefinitionId = false ∧
    p.agentDefinitionId.utf8ByteSize ≤ maxCapabilityIdBytes ∧ p.agentDefinitionVersion ≠ 0 ∧ p.revision ≠ 0 ∧
    p.validUntilMs ≠ some 0) .invalidRequest

structure AuthoritativePolicyState extends AuthoritativePolicyStateWire where
  valid : toAuthoritativePolicyStateWire.validate = .ok ()
  deriving DecidableEq

namespace AuthoritativePolicyState

def key (p : AuthoritativePolicyState) : String × ℕ := (p.agentDefinitionId, p.agentDefinitionVersion)

def revoked (p : AuthoritativePolicyState) : AuthoritativePolicyState :=
  { p with status := .revoked, valid := p.valid }

def tableKey (p : AuthoritativePolicyState) : Uuid × String × ℕ :=
  (p.ownerId, p.agentDefinitionId, p.agentDefinitionVersion)

end AuthoritativePolicyState

/-- `AuthoritativePolicyChange`; its variants are public. -/
inductive AuthoritativePolicyChange
  | create (state : AuthoritativePolicyState)
  | update (expectedRevision : ℕ) (state : AuthoritativePolicyState)
  | revoke (agentDefinitionId : String) (agentDefinitionVersion expectedRevision : ℕ)
  deriving DecidableEq

namespace AuthoritativePolicyChange

def key : AuthoritativePolicyChange → String × ℕ
  | .create state | .update _ state => state.key
  | .revoke id version _ => (id, version)

def applyTo (c : AuthoritativePolicyChange) (current : Option AuthoritativePolicyState) :
    StoreResult AuthoritativePolicyState :=
  match c, current with
  | .create next, none => .ok next
  | .update expectedRevision next, some current =>
    if current.ownerId = next.ownerId ∧ current.key = next.key ∧ current.revision = expectedRevision ∧
        current.revision < next.revision then .ok next
    else .error .versionConflict
  | .revoke id version expectedRevision, some current =>
    if current.agentDefinitionId = id ∧ current.agentDefinitionVersion = version ∧
        current.revision = expectedRevision then .ok current.revoked
    else .error .versionConflict
  | _, _ => .error .versionConflict

end AuthoritativePolicyChange

/-! ## Dispatch proofs -/

structure DispatchPolicyGuard where
  ownerId : Uuid
  runId : Uuid
  agentDefinitionId : String
  agentDefinitionVersion : ℕ
  logicalInvocationId : Uuid
  capabilityId : String
  manifestVersion : ℕ
  canonicalArgumentDigest : Uuid
  policyRevision : ℕ
  decisionDigest : String
  deriving DecidableEq

namespace DispatchPolicyGuard

def fromCurrentPolicy (digests : Digests) (ownerId : Uuid) (context : PolicyContext) (grants : List AutonomyGrant)
    (approval : Option ApprovalDecision) (evaluation : PolicyEvaluation) : StoreResult DispatchPolicyGuard := do
  ensure (isNil ownerId = false ∧ context.ownerId = uuidText ownerId ∧
    (evaluation.decision matches .allow _) = true ∧
    PolicyEngine.evaluateWithApproval context grants approval = .ok evaluation) .policyConflict
  let digest ← okOr (digests.evaluation evaluation) .policyConflict
  return { ownerId, runId := context.runId, agentDefinitionId := context.agentDefinitionId
           agentDefinitionVersion := context.agentDefinitionVersion
           logicalInvocationId := context.logicalInvocationId, capabilityId := context.capabilityId
           manifestVersion := context.manifestVersion
           canonicalArgumentDigest := context.canonicalArgumentDigest
           policyRevision := context.policyRevision, decisionDigest := sha256Labelled "sha256:" digest }

def matchesAttempt (g : DispatchPolicyGuard) (ownerId : Uuid) (attempt : InvocationAttemptRecord) : Bool :=
  g.ownerId == ownerId && g.runId == attempt.invocation.runId && g.logicalInvocationId == attempt.invocation.id &&
    g.capabilityId == attempt.invocation.capabilityId && g.manifestVersion == attempt.invocation.manifestVersion &&
    g.canonicalArgumentDigest == attempt.invocation.canonicalArgumentDigest && g.decisionDigest != ""

end DispatchPolicyGuard

def AuthoritativePolicyState.validates (p : AuthoritativePolicyState) (guard : DispatchPolicyGuard) (nowMs : ℕ) :
    Bool :=
  p.ownerId == guard.ownerId && p.agentDefinitionId == guard.agentDefinitionId &&
    p.agentDefinitionVersion == guard.agentDefinitionVersion && p.revision == guard.policyRevision &&
    p.status == .active && p.validUntilMs.all (fun u => decide (nowMs < u))

structure ApprovalGrantMutation where
  claim : ApprovalResumeClaim
  deriving DecidableEq

namespace ApprovalGrantMutation

def grantConsumption (m : ApprovalGrantMutation) : Option GrantConsumption := m.claim.grantConsumption

def grantId (m : ApprovalGrantMutation) : Option String := m.claim.binding.decision.request.grantId

def grantRevision (m : ApprovalGrantMutation) : Option ℕ := m.claim.binding.decision.request.grantRevision

def grantRemainingUses (m : ApprovalGrantMutation) : Option ℕ := m.claim.binding.decision.request.grantRemainingUses

end ApprovalGrantMutation

/-- `DispatchGrantMutation`: a counted grant that one dispatch consumes. -/
structure DispatchGrantMutation where
  ownerId : Uuid
  runId : Uuid
  logicalInvocationId : Uuid
  capabilityId : String
  canonicalArgumentDigest : Uuid
  policyRevision : ℕ
  consumption : GrantConsumption
  authorityBinding : GrantAuthorityBinding
  remainingUses : ℕ
  consumption_valid : consumption.validate = .ok ()
  deriving DecidableEq

namespace DispatchGrantMutation

def matchesAttempt (m : DispatchGrantMutation) (ownerId : Uuid) (attempt : InvocationAttemptRecord) : Bool :=
  m.ownerId == ownerId && m.runId == attempt.invocation.runId && m.logicalInvocationId == attempt.invocation.id &&
    m.capabilityId == attempt.invocation.capabilityId &&
    m.canonicalArgumentDigest == attempt.invocation.canonicalArgumentDigest && decide (0 < m.policyRevision)

end DispatchGrantMutation

/-! ## Stored runs -/

/-- The fields of `StoredRun`. -/
structure StoredRunWire where
  ownerId : Uuid
  run : Run
  runVersion : ℕ
  sessionVersion : ℕ
  initialInput : DurableRunInput
  deriving DecidableEq

/-- The check of `StoredRun::new_with_initial_input`. -/
def StoredRunWire.validate (s : StoredRunWire) : StoreResult Unit := do
  ensure (isNil s.ownerId = false ∧ s.runVersion ≠ 0 ∧ s.sessionVersion ≠ 0) .invalidRequest
  s.initialInput.validate
  ensure (s.initialInput.ownerId = s.ownerId ∧ s.initialInput.sessionId = s.run.sessionId ∧
    s.initialInput.runId = s.run.id) .invalidRequest

structure StoredRun extends StoredRunWire where
  valid : toStoredRunWire.validate = .ok ()
  deriving DecidableEq

def StoredRun.newWithInitialInput (w : StoredRunWire) : StoreResult StoredRun :=
  match h : w.validate with
  | .ok () => .ok { w with valid := h }
  | .error e => .error e

theorem StoredRun.newWithInitialInput_eq_ok {w : StoredRunWire} {s : StoredRun} :
    newWithInitialInput w = .ok s ↔ s.toStoredRunWire = w := by
  unfold newWithInitialInput
  constructor
  · intro h
    split at h
    · cases h
      rfl
    · cases h
  · rintro rfl
    split
    · rfl
    · next h => exact absurd (s.valid.symm.trans h) (by simp)

/-! ## Requests -/

/-- `CreateRun`; the initial input is bound to the request's own owner, session and run. -/
structure CreateRun where
  ownerId : Uuid
  session : Session
  run : Run
  expectedSessionVersion : ℕ
  concurrencyPolicy : SessionConcurrencyPolicy
  initialInput : DurableRunInput
  input_bound : initialInput.ownerId = ownerId ∧ initialInput.sessionId = session.id ∧ initialInput.runId = run.id ∧
    initialInput.text.utf8ByteSize ≤ maxDurableRunInputBytes
  deriving DecidableEq

structure RetryRun where
  commandId : Uuid
  sourceRunId : Uuid
  newRunId : Uuid
  valid : isNil commandId = false ∧ isNil sourceRunId = false ∧ isNil newRunId = false ∧ sourceRunId ≠ newRunId
  deriving DecidableEq

structure RetryRunOutcome where
  sourceRunId : Uuid
  run : StoredRun
  receipt : CommandReceipt
  deriving DecidableEq

def RetryRunOutcome.new (sourceRunId : Uuid) (run : StoredRun) (receipt : CommandReceipt) :
    StoreResult RetryRunOutcome := do
  ensure (isNil sourceRunId = false ∧ sourceRunId ≠ run.run.id) .invalidRequest
  return { sourceRunId, run, receipt }

structure DurableResultMutation where
  completed : CompletedInvocationRecord
  result : DurableCapabilityResult
  deriving DecidableEq

inductive CheckpointMutation
  | unchanged
  | replace (checkpoint : CheckpointV1)
  | clear
  deriving DecidableEq

structure ExecutionCommit where
  expectedRunVersion : ℕ
  expectedCheckpointVersion : ℕ
  lease : ExecutionLease
  command : RuntimeCommand
  events : List RuntimeEvent
  steps : List Step
  attempts : List InvocationAttemptRecord
  results : List DurableResultMutation
  approval : Option ApprovalGrantMutation
  policyGuard : Option DispatchPolicyGuard
  dispatchGrant : Option DispatchGrantMutation
  checkpoint : CheckpointMutation
  targetRun : Run
  deriving DecidableEq

def maxCommitEvents : ℕ := 256

def maxCommitSteps : ℕ := 128

def maxCommitAttempts : ℕ := 256

def maxCommitResults : ℕ := 128

def maxCommitBatchItems : ℕ := 512

def maxCommitCheckpointBytes : ℕ := 1048576

/-- `ExecutionCommit::validate_bounds`; the item counts are far below the word size. -/
def ExecutionCommit.validateBounds (digests : Digests) (c : ExecutionCommit) : StoreResult Unit := do
  ensure (c.events.length ≤ maxCommitEvents ∧ c.steps.length ≤ maxCommitSteps ∧
    c.attempts.length ≤ maxCommitAttempts ∧ c.results.length ≤ maxCommitResults) .boundsExceeded
  ensure (c.events.length + c.steps.length + c.attempts.length + c.results.length ≤ maxCommitBatchItems ∧
    (match c.checkpoint with
      | .replace checkpoint => (digests.checkpointBytes checkpoint).any (fun n => decide (n ≤ maxCommitCheckpointBytes))
      | .unchanged | .clear => true) = true) .boundsExceeded

structure ExecutionCommitOutcome where
  storedRun : StoredRun
  receipt : CommandReceipt
  checkpointVersion : ℕ
  checkpoint : Option CheckpointV1
  grantConsumption : Option GrantConsumption
  deriving DecidableEq

end AnimaCore
