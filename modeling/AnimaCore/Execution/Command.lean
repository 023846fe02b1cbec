import AnimaCore.Execution.Checkpoint

/-!
# AnimaCore.Execution.Command — commands, receipts and the claims a commit carries

The second half of `execution/state.rs`: runtime commands and their receipts, grant authority bindings, and the
approval claim that a resume command is committed with.

`Digests` gathers the functions that the source takes from SHA-256, UUIDv5 and JSON canonicalisation, one for each
kind of value they are applied to.  A digest that can fail (canonicalisation returns a `Result`) is an `Option`.
-/

namespace AnimaCore

open Lib

/-! ## Grant authority -/

structure GrantAuthorityKey where
  asStr : String
  valid : canonicalSha256Label asStr "gauth-v1:" = true
  deriving DecidableEq

/-- `ImmutableGrantAuthority`: the fields of a grant that its digest covers. -/
structure ImmutableGrantAuthority where
  id : String
  revision : ℕ
  status : GrantStatus
  effect : GrantEffect
  scope : GrantScope
  maximumRisk : RiskLevel
  validFromMs : ℤ
  validUntilMs : Option ℤ
  deriving DecidableEq

structure GrantAuthorityBinding where
  authorityKey : GrantAuthorityKey
  fullGrantDigest : String
  scopeDigest : String
  revision : ℕ
  status : GrantStatus
  effect : GrantEffect
  maximumRisk : RiskLevel
  validFromMs : ℤ
  validUntilMs : Option ℤ
  remainingUses : Option ℕ
  deriving DecidableEq

/-- `GrantAuthorityBinding::from_parts`; the encoded key of the source is one already. -/
def GrantAuthorityBinding.fromParts (b : GrantAuthorityBinding) : ExecResult GrantAuthorityBinding := do
  ensure (canonicalSha256Label b.fullGrantDigest "sha256:" = true ∧
    canonicalSha256Label b.scopeDigest "sha256:" = true ∧ b.revision ≠ 0 ∧ 0 ≤ b.validFromMs ∧
    b.validUntilMs.all (fun u => b.validFromMs ≤ u) = true) .invalidIdentifier
  return b

structure ApprovalResumeBinding where
  decision : ApprovalDecision
  deriving DecidableEq

/-! ## Commands -/

inductive RuntimeCommandKind
  | start
  | recordProgress
  | prepareDispatch
  | requestApproval
  | requireRecovery
  | pause
  | resume
  | retry
  | resumeApproval
  | resumeRecovery
  | complete
  | fail
  | cancel
  deriving DecidableEq, Repr

inductive RuntimeCommandPayload
  | start (runId : Uuid)
  | recordProgress (runId : Uuid)
  | prepareDispatch (runId : Uuid) (recovery : Option RecoveryRecord)
  | requestApproval (runId : Uuid) (request : ApprovalRequest)
  | requireRecovery (runId : Uuid) (recovery : RecoveryRecord)
  | pause (runId : Uuid) (reason : RunPauseReason) (recovery : Option RecoveryRecord)
  | resume (runId : Uuid)
  | retry (runId newRunId : Uuid)
  | resumeApproval (runId : Uuid) (binding : ApprovalResumeBinding)
  | resumeRecovery (runId : Uuid) (binding : RecoveryResumeBinding)
  | complete (runId : Uuid)
  | fail (runId : Uuid)
  | cancel (runId : Uuid) (recovery : Option RecoveryRecord)
  deriving DecidableEq

namespace RuntimeCommandPayload

def kind : RuntimeCommandPayload → RuntimeCommandKind
  | .start _ => .start
  | .recordProgress _ => .recordProgress
  | .prepareDispatch _ _ => .prepareDispatch
  | .requestApproval _ _ => .requestApproval
  | .requireRecovery _ _ => .requireRecovery
  | .pause _ _ _ => .pause
  | .resume _ => .resume
  | .retry _ _ => .retry
  | .resumeApproval _ _ => .resumeApproval
  | .resumeRecovery _ _ => .resumeRecovery
  | .complete _ => .complete
  | .fail _ => .fail
  | .cancel _ _ => .cancel

def runId : RuntimeCommandPayload → Uuid
  | .start id | .recordProgress id | .prepareDispatch id _ | .requestApproval id _ | .requireRecovery id _
  | .pause id _ _ | .resume id | .retry id _ | .resumeApproval id _ | .resumeRecovery id _ | .complete id
  | .fail id | .cancel id _ => id

def validate (p : RuntimeCommandPayload) : ExecResult Unit := do
  validUuid p.runId
  match p with
  | .requestApproval id request => ensure (request.runId = id) .missingPrerequisite
  | .requireRecovery id recovery => ensure (recovery.invocation.runId = id) .missingPrerequisite
  | .prepareDispatch id recovery => ensure (recovery.all (·.invocation.runId == id) = true) .missingPrerequisite
  | .pause id reason recovery => do
    ensure (reason ≠ .recoveryRequired) .missingPrerequisite
    ensure (recovery.all (·.invocation.runId == id) = true) .missingPrerequisite
  | .cancel id recovery => ensure (recovery.all (·.invocation.runId == id) = true) .missingPrerequisite
  | .retry id newRunId => do
    validUuid newRunId
    ensure (id ≠ newRunId) .invalidState
  | _ => .ok ()

end RuntimeCommandPayload

/-- The fields of `RuntimeCommand`. -/
structure RuntimeCommandWire where
  id : Uuid
  sessionId : Uuid
  payload : RuntimeCommandPayload
  deriving DecidableEq

/-- The check of `RuntimeCommand::new`. -/
def RuntimeCommandWire.validate (c : RuntimeCommandWire) : ExecResult Unit := do
  validUuid c.id
  validUuid c.sessionId
  c.payload.validate

structure RuntimeCommand extends RuntimeCommandWire where
  valid : toRuntimeCommandWire.validate = .ok ()
  deriving DecidableEq

namespace RuntimeCommand

def new (w : RuntimeCommandWire) : ExecResult RuntimeCommand :=
  match h : w.validate with
  | .ok () => .ok { w with valid := h }
  | .error e => .error e

theorem new_eq_ok {w : RuntimeCommandWire} {c : RuntimeCommand} (h : new w = .ok c) : c.toRuntimeCommandWire = w := by
  unfold new at h
  split at h
  · cases h
    rfl
  · cases h

def retry (id sessionId runId newRunId : Uuid) : ExecResult RuntimeCommand :=
  new { id, sessionId, payload := .retry runId newRunId }

def targetRunId (c : RuntimeCommand) : Uuid := c.payload.runId

def kind (c : RuntimeCommand) : RuntimeCommandKind := c.payload.kind

def approvalRequest (c : RuntimeCommand) : Option ApprovalRequest :=
  match c.payload with
  | .requestApproval _ request => some request
  | _ => none

def recoveryRecord (c : RuntimeCommand) : Option RecoveryRecord :=
  match c.payload with
  | .requireRecovery _ recovery => some recovery
  | .prepareDispatch _ recovery | .pause _ _ recovery | .cancel _ recovery => recovery
  | _ => none

def pauseReason (c : RuntimeCommand) : Option RunPauseReason :=
  match c.payload with
  | .pause _ reason _ => some reason
  | _ => none

def approvalBinding (c : RuntimeCommand) : Option ApprovalResumeBinding :=
  match c.payload with
  | .resumeApproval _ binding => some binding
  | _ => none

def recoveryBinding (c : RuntimeCommand) : Option RecoveryResumeBinding :=
  match c.payload with
  | .resumeRecovery _ binding => some binding
  | _ => none

theorem valid_facts (c : RuntimeCommand) :
    isNil c.id = false ∧ isNil c.sessionId = false ∧ isNil c.targetRunId = false := by
  have h := c.valid
  simp only [RuntimeCommandWire.validate, RuntimeCommandPayload.validate, bind_eq_ok, validUuid_eq_ok] at h
  obtain ⟨_, hi, _, hs, _, hr, _⟩ := h
  exact ⟨hi, hs, hr⟩

end RuntimeCommand

/-! ## Digests -/

/-- The hash functions of the source, each as a function of the value it is applied to. -/
structure Digests where
  /-- SHA-1 of the canonical JSON of a command's session and payload, cut to 128 bits. -/
  command : Uuid → RuntimeCommandPayload → BitVec 128
  /-- SHA-256 of the canonical JSON of an attempt record. -/
  attempt : InvocationAttemptRecord → Option (BitVec 256)
  /-- SHA-256 of the canonical JSON of a completed record. -/
  completed : CompletedInvocationRecord → Option (BitVec 256)
  /-- SHA-256 of a grant identity. -/
  grantId : String → BitVec 256
  /-- SHA-256 of the canonical JSON of a grant's immutable fields. -/
  grantAuthority : ImmutableGrantAuthority → Option (BitVec 256)
  /-- SHA-256 of the canonical JSON of a grant scope. -/
  grantScope : GrantScope → Option (BitVec 256)
  /-- SHA-256 of the canonical JSON of a policy evaluation. -/
  evaluation : PolicyEvaluation → Option (BitVec 256)
  /-- SHA-256 of a byte string. -/
  bytes : List UInt8 → BitVec 256
  /-- The length of the canonical JSON of a checkpoint. -/
  checkpointBytes : CheckpointV1 → Option ℕ

/-- `Uuid::new_v5`: the version and variant bits over a 128-bit hash. -/
def uuidV5 (hash : BitVec 128) : Uuid :=
  (hash &&& ~~~((0xf#128 <<< 76) ||| (0x3#128 <<< 62))) ||| ((0x5#128 <<< 76) ||| (0x2#128 <<< 62))

theorem uuidV5_ne_nil (hash : BitVec 128) : isNil (uuidV5 hash) = false := by
  rw [isNil_eq_false]
  intro h
  have hb := congrArg (fun v : BitVec 128 => v.getLsbD 63) h
  simp [uuidV5] at hb

def RuntimeCommand.payloadDigest (digests : Digests) (c : RuntimeCommand) : Uuid :=
  uuidV5 (digests.command c.sessionId c.payload)

/-- `sha256_labelled`: a label and the hexadecimal form of a digest. -/
def sha256Labelled (label : String) (digest : BitVec 256) : String :=
  label ++ String.ofList (hexDigits 64 digest.toNat)

theorem sha256Labelled_canonical (label : String) (digest : BitVec 256) :
    canonicalSha256Label (sha256Labelled label digest) label = true := by
  have hsize : String.utf8Len (hexDigits 64 digest.toNat) = 64 := by
    rw [utf8Len_eq_length fun c hc => (mem_hexDigits hc).2]
    simp [hexDigits]
  have hdigits : (hexDigits 64 digest.toNat).all isHexDigit = true :=
    List.all_eq_true.mpr fun c hc => (mem_hexDigits hc).1
  simp only [canonicalSha256Label, sha256Labelled, String.utf8ByteSize_append, String.utf8ByteSize_ofList, hsize]
  simpa using hdigits

/-! ## Grant bindings -/

def GrantAuthorityKey.fromGrantId (digests : Digests) (grantId : String) : GrantAuthorityKey :=
  ⟨sha256Labelled "gauth-v1:" (digests.grantId grantId), sha256Labelled_canonical _ _⟩

def AutonomyGrant.immutableAuthority (g : AutonomyGrant) : ImmutableGrantAuthority :=
  { id := g.id, revision := g.revision, status := g.status, effect := g.effect, scope := g.scope
    maximumRisk := g.maximumRisk, validFromMs := g.validFromMs, validUntilMs := g.validUntilMs }

/-- `GrantAuthorityBinding::from_grant`.  The source writes the grant as JSON and reads it back, which succeeds
with the same grant exactly if the grant is valid. -/
def GrantAuthorityBinding.fromGrant (digests : Digests) (grant : AutonomyGrant) :
    ExecResult GrantAuthorityBinding := do
  ensure (grant.validate = .ok ()) .missingPrerequisite
  let immutableAuthority ← okOr (digests.grantAuthority grant.immutableAuthority) .missingPrerequisite
  let scope ← okOr (digests.grantScope grant.scope) .missingPrerequisite
  return { authorityKey := GrantAuthorityKey.fromGrantId digests grant.id
           fullGrantDigest := sha256Labelled "sha256:" immutableAuthority
           scopeDigest := sha256Labelled "sha256:" scope, revision := grant.revision, status := grant.status
           effect := grant.effect, maximumRisk := grant.maximumRisk, validFromMs := grant.validFromMs
           validUntilMs := grant.validUntilMs, remainingUses := grant.remainingUses }

def GrantAuthorityBinding.matchesConsumption (digests : Digests) (b : GrantAuthorityBinding)
    (consumption : GrantConsumption) : Bool :=
  decide (b.authorityKey = GrantAuthorityKey.fromGrantId digests consumption.grantId) &&
    b.revision == consumption.grantRevision

structure GrantConsumptionSnapshot where
  consumption : GrantConsumption
  remainingUses : ℕ
  deriving DecidableEq

/-! ## Approval claims -/

/-- `ApprovalResumeClaim`: a live validation of an approving decision against current policy. -/
structure ApprovalResumeClaim where
  binding : ApprovalResumeBinding
  grantConsumptionSnapshot : Option GrantConsumptionSnapshot
  grantAuthorityBinding : Option GrantAuthorityBinding
  decision_valid : binding.decision.validate = .ok ()
  approved : binding.decision.kind = .approve
  consumption_valid : ∀ s, grantConsumptionSnapshot = some s → s.consumption.validate = .ok ()
  deriving DecidableEq

namespace ApprovalResumeClaim

/-- The counted-grant snapshot of a claim: the consumption of the evaluation with the use count of its grant. -/
def snapshotOf (grants : List AutonomyGrant) (consumption : Option GrantConsumption) :
    ExecResult (Option GrantConsumptionSnapshot) :=
  match consumption with
  | none => .ok none
  | some c => do
    let remainingUses ← okOr ((grants.find? fun g => g.id == c.grantId && g.revision == c.grantRevision).bind
      (·.remainingUses)) .missingPrerequisite
    ensure (remainingUses ≠ 0) .missingPrerequisite
    return some { consumption := c, remainingUses }

/-- The authority binding of a claim: that of the grant the request names. -/
def authorityOf (digests : Digests) (pending : ApprovalRequest) (grants : List AutonomyGrant) :
    ExecResult (Option GrantAuthorityBinding) :=
  match pending.grantId, pending.grantRevision with
  | some id, some revision => do
    let grant ← okOr (grants.find? fun g => g.id == id && g.revision == revision) .missingPrerequisite
    let binding ← GrantAuthorityBinding.fromGrant digests grant
    return some binding
  | none, none => .ok none
  | _, _ => .error .missingPrerequisite

def grantConsumption (c : ApprovalResumeClaim) : Option GrantConsumption :=
  c.grantConsumptionSnapshot.map (·.consumption)

end ApprovalResumeClaim

structure ApprovalResumeOutcome where
  run : Run
  grantConsumption : Option GrantConsumption

/-- The prerequisite of `apply_resume_command` in each state, with the consumption it brings; a recovery claim is
the binding it was validated for. -/
def Run.resumePrerequisite (r : Run) (command : RuntimeCommand) (approvalClaim : Option ApprovalResumeClaim)
    (recoveryClaim : Option RecoveryResumeBinding) : ExecResult (Option GrantConsumption) :=
  match r.state with
  | .waitingForApproval =>
    match r.pendingApproval, command.approvalBinding, approvalClaim with
    | some expected, some commandBinding, some claim => do
      ensure (command.kind = .resumeApproval ∧ recoveryClaim = none ∧ claim.binding = commandBinding ∧
        claim.binding.decision.request = expected) .missingPrerequisite
      return claim.grantConsumption
    | _, _, _ => .error .missingPrerequisite
  | .recoveryRequired =>
    match r.recoveryPause, command.recoveryBinding, recoveryClaim with
    | some expected, some commandBinding, some claim => do
      ensure (command.kind = .resumeRecovery ∧ approvalClaim = none ∧ claim = commandBinding ∧
        r.recoveryBinding = some commandBinding ∧ expected.matchesResumeBinding commandBinding = true)
        .recoveryRequired
      return none
    | _, _, _ => .error .recoveryRequired
  | _ => .error .illegalTransition

def Run.applyResumeCommand (r : Run) (command : RuntimeCommand) (approvalClaim : Option ApprovalResumeClaim)
    (recoveryClaim : Option RecoveryResumeBinding) : ExecResult ApprovalResumeOutcome := do
  ensure (command.sessionId = r.sessionId ∧ command.targetRunId = r.id) .missingPrerequisite
  let grantConsumption ← r.resumePrerequisite command approvalClaim recoveryClaim
  let run ← Run.fromParts (r.parts .running)
  return { run, grantConsumption }

/-! ## Receipts -/

inductive CommandOutcome
  | accepted
  | rejected
  deriving DecidableEq, Repr

structure CommandReceipt where
  commandId : Uuid
  payloadDigest : Uuid
  outcome : CommandOutcome
  deriving DecidableEq

/-- `CommandReceipt::accepted`, which never fails. -/
def CommandReceipt.accepted (digests : Digests) (command : RuntimeCommand) : CommandReceipt :=
  { commandId := command.id, payloadDigest := command.payloadDigest digests, outcome := .accepted }

def CommandReceipt.replay (digests : Digests) (r : CommandReceipt) (command : RuntimeCommand) :
    ExecResult CommandOutcome := do
  ensure (r.commandId = command.id ∧ r.payloadDigest = command.payloadDigest digests) .commandConflict
  return r.outcome

end AnimaCore
