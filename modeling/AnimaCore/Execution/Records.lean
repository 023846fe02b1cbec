import AnimaCore.Policy

/-!
# AnimaCore.Execution.Records — pins, attempt records and history fingerprints

The records of `execution/checkpoint.rs` that runs, commands and checkpoints are built from.  Each record whose
fields are private in the source is a structure over its wire form with `validate` as a field: the constructors of
the source are `validate` and nothing else, so the values of the type are exactly the values they return.

An attempt record may carry the normalized arguments of its invocation.  The source rebuilds the invocation from
them and compares the two (a UUIDv5 of canonical JSON); here the arguments are carried and not rebuilt, so every
record of the source is one of the model.

`HistoryFingerprint` is the exclusive or of the SHA-256 digests of the values included so far.
-/

namespace AnimaCore

open Lib

/-! ## History fingerprints -/

abbrev HistoryFingerprint := BitVec 256

namespace HistoryFingerprint

variable {α : Type}

/-- `HistoryFingerprint::include`; `digest` is SHA-256 of the canonical JSON, `none` if there is none. -/
def includeValue (digest : α → Option (BitVec 256)) (fingerprint : HistoryFingerprint) (value : α) :
    ExecResult HistoryFingerprint := do
  let d ← okOr (digest value) .invalidCheckpoint
  return fingerprint ^^^ d

def fromValues (digest : α → Option (BitVec 256)) (values : List α) : ExecResult HistoryFingerprint :=
  values.foldlM (includeValue digest) 0

theorem includeValue_eq_ok {digest : α → Option (BitVec 256)} {fp fp' : HistoryFingerprint} {value : α} :
    includeValue digest fp value = .ok fp' ↔ ∃ d, digest value = some d ∧ fp' = fp ^^^ d := by
  simp only [includeValue, bind_eq_ok, okOr_eq_ok]
  constructor
  · rintro ⟨d, hd, h⟩
    cases h
    exact ⟨d, hd, rfl⟩
  · rintro ⟨d, hd, rfl⟩
    exact ⟨d, hd, rfl⟩

end HistoryFingerprint

/-! ## Pins -/

def supportedDefinitionSchemaVersion : ℕ := 1

/-- The fields of `DefinitionPin`. -/
structure DefinitionPinWire where
  schemaVersion : ℕ
  id : String
  version : ℕ
  deriving DecidableEq

def DefinitionPinWire.validate (p : DefinitionPinWire) : ExecResult Unit := do
  ensure (p.schemaVersion = supportedDefinitionSchemaVersion) .incompatibleCheckpoint
  validId p.id
  validVersion p.version

structure DefinitionPin extends DefinitionPinWire where
  valid : toDefinitionPinWire.validate = .ok ()
  deriving DecidableEq

/-- The fields of `ManifestPin`. -/
structure ManifestPinWire where
  id : String
  version : ℕ
  schemaDigest : String
  recoveryMode : RecoveryMode
  deriving DecidableEq

def ManifestPinWire.validate (p : ManifestPinWire) : ExecResult Unit := do
  validId p.id
  validVersion p.version
  ensure (canonicalSha256Label p.schemaDigest "sha256:" = true) .invalidCheckpoint

structure ManifestPin extends ManifestPinWire where
  valid : toManifestPinWire.validate = .ok ()
  deriving DecidableEq

/-- The key of the derived `Ord` of `ManifestPin`. -/
def ManifestPin.sortKey (p : ManifestPin) : String × ℕ × String × ℕ :=
  (p.id, p.version, p.schemaDigest, p.recoveryMode.rank)

structure OpaqueReference where
  value : Uuid
  valid : isNil value = false

instance : DecidableEq OpaqueReference := fun a b =>
  decidable_of_iff (a.value = b.value) (by cases a; cases b; simp)

/-! ## Attempt records -/

inductive AttemptRecordState
  | pending
  | dispatching
  | completed
  | uncertain
  deriving DecidableEq, Repr

/-- The fields of `InvocationAttemptRecord`. -/
structure InvocationAttemptRecordWire where
  invocation : LogicalInvocationBinding
  normalizedArguments : Option Value
  attemptNumber : ℕ
  state : AttemptRecordState
  manifest : ManifestPin
  recoveryMode : RecoveryMode
  deriving DecidableEq

/-- `InvocationAttemptRecord::validate`; the number is a `u32`. -/
def InvocationAttemptRecordWire.validate (r : InvocationAttemptRecordWire) : ExecResult Unit :=
  ensure (r.attemptNumber ≠ 0 ∧ r.attemptNumber < 2 ^ 32 ∧ r.invocation.capabilityId = r.manifest.id ∧
    r.invocation.manifestVersion = r.manifest.version ∧ r.recoveryMode = r.manifest.recoveryMode) .invalidCheckpoint

structure InvocationAttemptRecord extends InvocationAttemptRecordWire where
  valid : toInvocationAttemptRecordWire.validate = .ok ()
  deriving DecidableEq

/-- The key of an attempt in a run's history. -/
abbrev AttemptKey := Uuid × ℕ

def InvocationAttemptRecord.key (r : InvocationAttemptRecord) : AttemptKey := (r.invocation.id, r.attemptNumber)

/-- The fields of `CompletedInvocationRecord`. -/
structure CompletedInvocationRecordWire where
  invocation : LogicalInvocationBinding
  attemptNumber : ℕ
  manifest : ManifestPin
  recoveryMode : RecoveryMode
  resultRef : OpaqueReference
  deriving DecidableEq

/-- `CompletedInvocationRecord::validate`: it is the completed attempt it names. -/
def CompletedInvocationRecordWire.validate (r : CompletedInvocationRecordWire) : ExecResult Unit :=
  InvocationAttemptRecordWire.validate
    { invocation := r.invocation, normalizedArguments := none, attemptNumber := r.attemptNumber
      state := .completed, manifest := r.manifest, recoveryMode := r.recoveryMode }

structure CompletedInvocationRecord extends CompletedInvocationRecordWire where
  valid : toCompletedInvocationRecordWire.validate = .ok ()
  deriving DecidableEq

/-- The key of the attempt that a completed record names. -/
def CompletedInvocationRecord.key (r : CompletedInvocationRecord) : AttemptKey := (r.invocation.id, r.attemptNumber)

/-! ## Recovery records -/

inductive RecoveryPauseReason
  | retryable
  | authoritativeAbsence
  | uncertainOutcome
  | reconciliationPending
  | manualReview
  | hostRecovery
  deriving DecidableEq, Repr

/-- The fields of `RecoveryPauseRecord`. -/
structure RecoveryPauseRecordWire where
  invocation : LogicalInvocationBinding
  attemptNumber : ℕ
  manifest : ManifestPin
  reason : RecoveryPauseReason
  deriving DecidableEq

/-- `RecoveryPauseRecord::validate`: it is the uncertain attempt it names. -/
def RecoveryPauseRecordWire.validate (r : RecoveryPauseRecordWire) : ExecResult Unit :=
  InvocationAttemptRecordWire.validate
    { invocation := r.invocation, normalizedArguments := none, attemptNumber := r.attemptNumber
      state := .uncertain, manifest := r.manifest, recoveryMode := r.manifest.recoveryMode }

structure RecoveryPauseRecord extends RecoveryPauseRecordWire where
  valid : toRecoveryPauseRecordWire.validate = .ok ()
  deriving DecidableEq

def RecoveryPauseRecord.allowsAutomaticResume (p : RecoveryPauseRecord) : Bool :=
  (p.reason == .retryable || p.reason == .authoritativeAbsence) && p.manifest.recoveryMode.retryable

def RecoveryPauseRecord.matchesResumeBinding (p : RecoveryPauseRecord) (b : RecoveryResumeBinding) : Bool :=
  p.allowsAutomaticResume && b.logicalInvocationId == p.invocation.id && b.runId == p.invocation.runId &&
    b.logicalStepId == p.invocation.logicalStepId && b.capabilityId == p.invocation.capabilityId &&
    b.canonicalArgumentDigest == p.invocation.canonicalArgumentDigest &&
    b.completedAttemptNumber == p.attemptNumber && b.manifestId == p.manifest.id &&
    b.manifestVersion == p.manifest.version && b.manifestDigest == p.manifest.schemaDigest &&
    b.recoveryMode == p.manifest.recoveryMode && b.idempotencyKey == p.invocation.idempotencyKey

/-- The fields of `UncertainInvocationRecord`. -/
structure UncertainInvocationRecordWire where
  pause : RecoveryPauseRecord
  resumeBinding : Option RecoveryResumeBinding
  deriving DecidableEq

def UncertainInvocationRecordWire.validate (r : UncertainInvocationRecordWire) : ExecResult Unit :=
  ensure (r.resumeBinding.all r.pause.matchesResumeBinding = true) .invalidCheckpoint

structure UncertainInvocationRecord extends UncertainInvocationRecordWire where
  valid : toUncertainInvocationRecordWire.validate = .ok ()
  deriving DecidableEq

abbrev RecoveryRecord := UncertainInvocationRecord

def UncertainInvocationRecord.invocation (r : UncertainInvocationRecord) : LogicalInvocationBinding :=
  r.pause.invocation

def UncertainInvocationRecord.attemptNumber (r : UncertainInvocationRecord) : ℕ := r.pause.attemptNumber

/-! ## Pending approvals -/

/-- The fields of `PendingApprovalRecord`. -/
structure PendingApprovalRecordWire where
  request : ApprovalRequest
  decision : Option ApprovalDecision
  deriving DecidableEq

def PendingApprovalRecordWire.validate (r : PendingApprovalRecordWire) : ExecResult Unit := do
  ensure (r.request.validate = .ok ()) .invalidCheckpoint
  ensure (r.decision.all (fun d => decide (d.validate = .ok ())) = true) .invalidCheckpoint
  ensure (r.decision.all (fun d => decide (d.request = r.request) && d.kind == .approve) = true) .invalidCheckpoint

structure PendingApprovalRecord extends PendingApprovalRecordWire where
  valid : toPendingApprovalRecordWire.validate = .ok ()
  deriving DecidableEq

def PendingApprovalRecord.validateAgainst (r : PendingApprovalRecord) (definition : DefinitionPin)
    (attempt : InvocationAttemptRecord) : ExecResult Unit := do
  r.validate
  let request := r.request
  let invocation := attempt.invocation
  ensure (request.agentDefinitionId = definition.id ∧ request.agentDefinitionVersion = definition.version ∧
    request.runId = invocation.runId ∧ request.logicalStepId = invocation.logicalStepId ∧
    request.logicalInvocationId = invocation.id ∧ request.capabilityId = invocation.capabilityId ∧
    request.manifestVersion = invocation.manifestVersion ∧ request.capabilityId = attempt.manifest.id ∧
    request.manifestVersion = attempt.manifest.version ∧
    request.canonicalArgumentDigest = invocation.canonicalArgumentDigest) .invalidCheckpoint

end AnimaCore
