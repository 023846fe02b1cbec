import AnimaCore.Capability

/-!
# AnimaCore.Policy — capability risk evaluation

`policy.rs`: policy contexts, autonomy grants, approval requests and decisions, and the `PolicyEngine` that decides
whether a capability may run.  The engine is pure; a host's clock is the `nowMs` of the context.

* Records with public fields are plain structures; their `validate` is run again wherever the source runs it.
* `PolicyContext.provenance` and `ApprovalDecision.binding` are the private fields of the source: they are set by
  `PolicyContext.verifyAgainst` and `ApprovalDecision.new` and compared with the public fields on every use.
* The one `expect` of the engine (`reason`) is a `PolicyFault.panicked`, so that its absence is a statement.
-/

namespace AnimaCore

open Lib

def approvalWindowMs : ℤ := 300000

def maxPolicyIdentifierBytes : ℕ := 128

/-- `PolicyValidationError`; a field is the name the source reports. -/
inductive PolicyValidationError
  | blankIdentifier (field : String)
  | invalidVersion
  | invalidRiskConstraint
  | unverifiedPolicyContext
  | contextManifestMismatch
  | contextInvocationMismatch
  | invalidValidityWindow
  | inconsistentApprovalBinding
  | invalidApprovalTime
  | approvalWindowOverflow
  | approvalNotRequired
  | duplicateGrantIdentity
  | suppliedGrantDoesNotMatch
  | invalidNilIdentifier
  | invalidIdentifierFormat (field : String)
  | identifierTooLong (field : String)
  | inconsistentAuditRecord
  deriving DecidableEq, Repr

/-- `Result<T, PolicyValidationError>`. -/
abbrev PolicyResult (α : Type) := Except PolicyValidationError α

/-- How a call of the engine ends without a value: a reported error, or a failed `expect`. -/
inductive PolicyFault
  | invalid (error : PolicyValidationError)
  | panicked
  deriving DecidableEq, Repr

/-- The `?` operator inside the engine. -/
def PolicyResult.orFault {α : Type} (r : PolicyResult α) : Except PolicyFault α :=
  match r with
  | .ok a => .ok a
  | .error e => .error (.invalid e)

@[simp] theorem orFault_eq_ok {α : Type} {r : PolicyResult α} {a : α} :
    PolicyResult.orFault r = .ok a ↔ r = .ok a := by
  cases r <;> simp [PolicyResult.orFault]

/-! ## Field checks -/

def isPolicyChar (c : Char) : Bool :=
  ('0' ≤ c && c ≤ '9') || ('a' ≤ c && c ≤ 'z') || ('A' ≤ c && c ≤ 'Z') || c == '-' || c == '_' || c == '.' || c == ':'

def validatePolicyIdentifier (field value : String) : PolicyResult Unit := do
  ensure (trimmedEmpty value = false) (.blankIdentifier field)
  ensure (value.utf8ByteSize ≤ maxPolicyIdentifierBytes) (.identifierTooLong field)
  ensure (value.toList.all isPolicyChar = true) (.invalidIdentifierFormat field)

def validateTask2Identifier (field value : String) : PolicyResult Unit := do
  ensure (value ≠ "") (.blankIdentifier field)
  ensure (value.utf8ByteSize ≤ maxCapabilityIdBytes) (.identifierTooLong field)

/-- `validate_resource_boundary`; a `CapabilityReferenceId` is its handle. -/
def validateResourceBoundary (resourceBoundary : Uuid) : PolicyResult Unit :=
  ensure (isNil resourceBoundary = false) .invalidNilIdentifier

/-- The four owner-side identifiers that contexts, scopes and requests check first, in this order. -/
def validateIdentities (ownerId actorId agentDefinitionId workspaceId : String) : PolicyResult Unit :=
  [("owner_id", ownerId), ("actor_id", actorId), ("agent_definition_id", agentDefinitionId),
    ("workspace_id", workspaceId)].forM fun p => validatePolicyIdentifier p.1 p.2

def riskRank : RiskLevel → ℕ
  | .none => 0
  | .low => 1
  | .medium => 2
  | .high => 3
  | .critical => 4

def maxRisk (left right : RiskLevel) : RiskLevel := if riskRank right ≤ riskRank left then left else right

/-! ## Contexts -/

structure PolicyRestrictions where
  minimumRisk : Option RiskLevel
  deny : Bool
  deriving DecidableEq

/-- `PolicyInputSnapshot`: the manifest and invocation a context was verified against. -/
structure PolicyInputSnapshot where
  manifestId : String
  manifestVersion : ℕ
  manifestRisk : RiskLevel
  runId : Uuid
  logicalStepId : String
  logicalInvocationId : Uuid
  canonicalArgumentDigest : Uuid
  deriving DecidableEq

structure PolicyContext where
  ownerId : String
  actorId : String
  agentDefinitionId : String
  agentDefinitionVersion : ℕ
  workspaceId : String
  resourceBoundary : Uuid
  capabilityId : String
  manifestVersion : ℕ
  manifestRisk : RiskLevel
  runId : Uuid
  logicalStepId : String
  logicalInvocationId : Uuid
  canonicalArgumentDigest : Uuid
  policyRevision : ℕ
  restrictions : PolicyRestrictions
  nowMs : ℤ
  provenance : Option PolicyInputSnapshot
  deriving DecidableEq

namespace PolicyContext

def effectiveRisk (c : PolicyContext) : RiskLevel :=
  match c.restrictions.minimumRisk with
  | none => c.manifestRisk
  | some minimum => maxRisk c.manifestRisk minimum

def validate (c : PolicyContext) : PolicyResult Unit := do
  validateIdentities c.ownerId c.actorId c.agentDefinitionId c.workspaceId
  validateTask2Identifier "capability_id" c.capabilityId
  validateTask2Identifier "logical_step_id" c.logicalStepId
  validateResourceBoundary c.resourceBoundary
  ensure (c.agentDefinitionVersion ≠ 0 ∧ c.manifestVersion ≠ 0 ∧ c.policyRevision ≠ 0) .invalidVersion
  ensure (c.manifestRisk ≠ .none ∧ c.restrictions.minimumRisk ≠ some .none) .invalidRiskConstraint

/-- `verify_against`; of the invocation only its safe binding is read. -/
def verifyAgainst (c : PolicyContext) (manifest : CapabilityManifest) (invocation : LogicalInvocationBinding) :
    PolicyResult PolicyContext := do
  c.validate
  ensure (manifest.id = invocation.capabilityId ∧ manifest.version = invocation.manifestVersion ∧
    c.capabilityId = manifest.id ∧ c.manifestVersion = manifest.version ∧ c.manifestRisk = manifest.riskLevel)
    .contextManifestMismatch
  ensure (c.runId = invocation.runId ∧ c.logicalStepId = invocation.logicalStepId ∧
    c.logicalInvocationId = invocation.id ∧ c.canonicalArgumentDigest = invocation.canonicalArgumentDigest)
    .contextInvocationMismatch
  let snapshot : PolicyInputSnapshot :=
    { manifestId := manifest.id, manifestVersion := manifest.version, manifestRisk := manifest.riskLevel
      runId := invocation.runId, logicalStepId := invocation.logicalStepId, logicalInvocationId := invocation.id
      canonicalArgumentDigest := invocation.canonicalArgumentDigest }
  return { c with provenance := some snapshot }

def new (ownerId actorId agentDefinitionId : String) (agentDefinitionVersion : ℕ) (workspaceId : String)
    (resourceBoundary : Uuid) (manifest : CapabilityManifest) (invocation : LogicalInvocationBinding)
    (policyRevision : ℕ) (restrictions : PolicyRestrictions) (nowMs : ℤ) : PolicyResult PolicyContext :=
  PolicyContext.verifyAgainst
    { ownerId, actorId, agentDefinitionId, agentDefinitionVersion, workspaceId, resourceBoundary
      capabilityId := manifest.id, manifestVersion := manifest.version, manifestRisk := manifest.riskLevel
      runId := invocation.runId, logicalStepId := invocation.logicalStepId, logicalInvocationId := invocation.id
      canonicalArgumentDigest := invocation.canonicalArgumentDigest, policyRevision, restrictions, nowMs
      provenance := none } manifest invocation

def validateEvaluationInput (c : PolicyContext) : PolicyResult Unit := do
  c.validate
  let snapshot ← okOr c.provenance .unverifiedPolicyContext
  ensure (snapshot.manifestId = c.capabilityId ∧ snapshot.manifestVersion = c.manifestVersion ∧
    snapshot.manifestRisk = c.manifestRisk) .contextManifestMismatch
  ensure (snapshot.runId = c.runId ∧ snapshot.logicalStepId = c.logicalStepId ∧
    snapshot.logicalInvocationId = c.logicalInvocationId ∧
    snapshot.canonicalArgumentDigest = c.canonicalArgumentDigest) .contextInvocationMismatch

def requiresExactArgumentScope (c : PolicyContext) : Bool := c.effectiveRisk == .critical || c.restrictions.deny

end PolicyContext

/-! ## Reasons and decisions -/

inductive PolicyReasonCode
  | allowedByDefault
  | approvalRequired
  | deniedByDefault
  | deniedByRestriction
  | allowedByGrant
  | allowedByExactGrantOverride
  | allowedByApproval
  deriving DecidableEq, Repr

structure PolicyReason where
  code : PolicyReasonCode
  effectiveRisk : RiskLevel
  policyRevision : ℕ
  grantId : Option String
  grantRevision : Option ℕ
  deriving DecidableEq

/-- The grant part of `PolicyReason::validate`: whether a grant is named. -/
def PolicyReason.hasGrant (r : PolicyReason) : PolicyResult Bool :=
  match r.grantId, r.grantRevision with
  | some id, some revision =>
    if 0 < revision then do
      validatePolicyIdentifier "grant_id" id
      .ok true
    else .error .inconsistentAuditRecord
  | none, none => .ok false
  | _, _ => .error .inconsistentAuditRecord

def PolicyReason.validate (r : PolicyReason) : PolicyResult Unit := do
  ensure (r.effectiveRisk ≠ .none ∧ r.policyRevision ≠ 0) .inconsistentAuditRecord
  let hasGrant ← r.hasGrant
  match r.code with
  | .allowedByGrant | .allowedByExactGrantOverride => ensure (hasGrant = true) .inconsistentAuditRecord
  | .allowedByDefault | .deniedByDefault | .deniedByRestriction =>
    ensure (hasGrant = false) .inconsistentAuditRecord
  | .approvalRequired | .allowedByApproval => .ok ()

inductive PolicyDecision
  | allow (reason : PolicyReason)
  | requireApproval (reason : PolicyReason)
  | deny (reason : PolicyReason)
  deriving DecidableEq

def PolicyDecision.reason : PolicyDecision → PolicyReason
  | .allow r | .requireApproval r | .deny r => r

def PolicyDecision.kind (d : PolicyDecision) : PolicyReasonCode := d.reason.code

def PolicyDecision.validate (d : PolicyDecision) : PolicyResult Unit := do
  d.reason.validate
  match d with
  | .allow r => ensure (r.code = .allowedByDefault ∨ r.code = .allowedByGrant ∨
      r.code = .allowedByExactGrantOverride ∨ r.code = .allowedByApproval) .inconsistentAuditRecord
  | .requireApproval r => ensure (r.code = .approvalRequired) .inconsistentAuditRecord
  | .deny r => ensure (r.code = .deniedByDefault ∨ r.code = .deniedByRestriction) .inconsistentAuditRecord

/-! ## Grants -/

structure GrantScope where
  ownerId : String
  actorId : String
  agentDefinitionId : String
  agentDefinitionVersion : ℕ
  workspaceId : String
  resourceBoundary : Uuid
  capabilityId : String
  manifestVersion : ℕ
  canonicalArgumentDigest : Option Uuid
  deriving DecidableEq

def GrantScope.validate (s : GrantScope) : PolicyResult Unit := do
  validateIdentities s.ownerId s.actorId s.agentDefinitionId s.workspaceId
  validateTask2Identifier "capability_id" s.capabilityId
  validateResourceBoundary s.resourceBoundary
  ensure (s.agentDefinitionVersion ≠ 0 ∧ s.manifestVersion ≠ 0) .invalidVersion
  ensure (s.canonicalArgumentDigest.all (fun d => !isNil d) = true) .invalidNilIdentifier

inductive GrantStatus
  | active
  | revoked
  deriving DecidableEq, Repr

inductive GrantEffect
  | autoAllow
  | approvalRequired
  deriving DecidableEq, Repr

structure AutonomyGrant where
  id : String
  revision : ℕ
  status : GrantStatus
  effect : GrantEffect
  scope : GrantScope
  maximumRisk : RiskLevel
  validFromMs : ℤ
  validUntilMs : Option ℤ
  remainingUses : Option ℕ
  deriving DecidableEq

def AutonomyGrant.validate (g : AutonomyGrant) : PolicyResult Unit := do
  validatePolicyIdentifier "grant_id" g.id
  ensure (g.revision ≠ 0) .invalidVersion
  g.scope.validate
  ensure (g.maximumRisk ≠ .none) .invalidRiskConstraint
  ensure (g.validUntilMs.all (fun u => g.validFromMs < u) = true) .invalidValidityWindow

structure GrantConsumption where
  grantId : String
  grantRevision : ℕ
  logicalInvocationId : Uuid
  deriving DecidableEq

def GrantConsumption.validate (c : GrantConsumption) : PolicyResult Unit := do
  validatePolicyIdentifier "grant_id" c.grantId
  ensure (c.grantRevision ≠ 0) .invalidVersion
  ensure (isNil c.logicalInvocationId = false) .invalidNilIdentifier

def GrantConsumption.new (grantId : String) (grantRevision : ℕ) (logicalInvocationId : Uuid) :
    PolicyResult GrantConsumption := do
  let c : GrantConsumption := { grantId, grantRevision, logicalInvocationId }
  c.validate
  return c

structure PolicyEvaluation where
  decision : PolicyDecision
  consumption : Option GrantConsumption
  deriving DecidableEq

def PolicyEvaluation.new (decision : PolicyDecision) (consumption : Option GrantConsumption) :
    PolicyResult PolicyEvaluation := do
  decision.validate
  match consumption with
  | none => return { decision, consumption := none }
  | some c =>
    c.validate
    match decision with
    | .allow r =>
      ensure ((r.code = .allowedByGrant ∨ r.code = .allowedByExactGrantOverride ∨ r.code = .allowedByApproval) ∧
        r.grantId = some c.grantId ∧ r.grantRevision = some c.grantRevision) .inconsistentAuditRecord
      return { decision, consumption := some c }
    | _ => .error .inconsistentAuditRecord

/-! ## Approvals -/

structure ApprovalRequest where
  ownerId : String
  actorId : String
  agentDefinitionId : String
  agentDefinitionVersion : ℕ
  workspaceId : String
  resourceBoundary : Uuid
  restrictions : PolicyRestrictions
  runId : Uuid
  logicalStepId : String
  logicalInvocationId : Uuid
  capabilityId : String
  manifestVersion : ℕ
  canonicalArgumentDigest : Uuid
  effectiveRisk : RiskLevel
  reason : PolicyReason
  policyRevision : ℕ
  grantId : Option String
  grantRevision : Option ℕ
  grantRemainingUses : Option ℕ
  requestedAtMs : ℤ
  expiresAtMs : ℤ
  deriving DecidableEq

/-- The grant part of `ApprovalRequest::validate`. -/
def ApprovalRequest.validateGrant (r : ApprovalRequest) : PolicyResult Unit :=
  match r.grantId, r.grantRevision, r.grantRemainingUses with
  | some id, some revision, remainingUses =>
    if 0 < revision ∧ remainingUses ≠ some 0 then validatePolicyIdentifier "grant_id" id
    else .error .inconsistentApprovalBinding
  | none, none, none => .ok ()
  | _, _, _ => .error .inconsistentApprovalBinding

def ApprovalRequest.validate (r : ApprovalRequest) : PolicyResult Unit := do
  r.reason.validate
  validateIdentities r.ownerId r.actorId r.agentDefinitionId r.workspaceId
  validateTask2Identifier "logical_step_id" r.logicalStepId
  validateTask2Identifier "capability_id" r.capabilityId
  validateResourceBoundary r.resourceBoundary
  ensure (r.agentDefinitionVersion ≠ 0 ∧ r.manifestVersion ≠ 0 ∧ r.policyRevision ≠ 0) .invalidVersion
  ensure (isNil r.runId = false ∧ isNil r.logicalInvocationId = false ∧ isNil r.canonicalArgumentDigest = false)
    .invalidNilIdentifier
  ensure (0 ≤ r.requestedAtMs ∧ checkedAddInt 64 r.requestedAtMs approvalWindowMs = some r.expiresAtMs)
    .invalidApprovalTime
  ensure (r.effectiveRisk ≠ .none ∧ r.restrictions.minimumRisk ≠ some .none ∧
    r.reason.effectiveRisk = r.effectiveRisk ∧ r.reason.policyRevision = r.policyRevision ∧
    r.reason.code = .approvalRequired ∧ r.reason.grantId = r.grantId ∧ r.reason.grantRevision = r.grantRevision)
    .inconsistentApprovalBinding
  r.validateGrant

inductive ApprovalDecisionKind
  | approve
  | deny
  deriving DecidableEq, Repr

structure ApprovalDecisionBinding where
  request : ApprovalRequest
  kind : ApprovalDecisionKind
  decidedAtMs : ℤ
  deriving DecidableEq

structure ApprovalDecision where
  request : ApprovalRequest
  kind : ApprovalDecisionKind
  decidedAtMs : ℤ
  binding : Option ApprovalDecisionBinding
  deriving DecidableEq

def ApprovalDecision.validate (d : ApprovalDecision) : PolicyResult Unit := do
  d.request.validate
  let binding ← okOr d.binding .inconsistentApprovalBinding
  ensure (binding.request = d.request ∧ binding.kind = d.kind ∧ binding.decidedAtMs = d.decidedAtMs)
    .inconsistentApprovalBinding
  ensure (d.request.requestedAtMs ≤ d.decidedAtMs ∧ d.decidedAtMs < d.request.expiresAtMs) .invalidApprovalTime

def ApprovalDecision.new (request : ApprovalRequest) (kind : ApprovalDecisionKind) (decidedAtMs : ℤ) :
    PolicyResult ApprovalDecision := do
  let d : ApprovalDecision := { request, kind, decidedAtMs, binding := some { request, kind, decidedAtMs } }
  d.validate
  return d

inductive ApprovalValidity
  | valid
  | invalidBinding
  | invalidDecision
  | invalidOwner
  | invalidActor
  | invalidDefinition
  | invalidWorkspace
  | invalidResource
  | invalidRestrictions
  | invalidRun
  | invalidStep
  | invalidInvocation
  | invalidManifest
  | invalidArguments
  | invalidRisk
  | expired
  | invalidGrant
  deriving DecidableEq, Repr

/-! ## The engine -/

/-- `validate_grant_set`: no two grants share an identity. -/
def validateGrantSet (grants : List AutonomyGrant) : PolicyResult Unit :=
  ensure ((grants.map fun g => (g.id, g.revision)).Nodup) .duplicateGrantIdentity

def validatedGrantByIdentity (grants : List AutonomyGrant) (id : String) (revision : ℕ) :
    PolicyResult (Option AutonomyGrant) := do
  validateGrantSet grants
  return grants.find? fun g => g.id == id && g.revision == revision

namespace PolicyEngine

def grantMatches (grant : AutonomyGrant) (context : PolicyContext) : Bool :=
  decide (context.validateEvaluationInput = .ok ()) && decide (grant.validate = .ok ()) &&
    grant.status == .active && grant.scope.ownerId == context.ownerId && grant.scope.actorId == context.actorId &&
    grant.scope.agentDefinitionId == context.agentDefinitionId &&
    grant.scope.agentDefinitionVersion == context.agentDefinitionVersion &&
    grant.scope.workspaceId == context.workspaceId && grant.scope.resourceBoundary == context.resourceBoundary &&
    grant.scope.capabilityId == context.capabilityId && grant.scope.manifestVersion == context.manifestVersion &&
    (match grant.scope.canonicalArgumentDigest with
      | some digest => digest == context.canonicalArgumentDigest
      | none => !context.requiresExactArgumentScope) &&
    decide (riskRank context.effectiveRisk ≤ riskRank grant.maximumRisk) &&
    decide (grant.validFromMs ≤ context.nowMs) && grant.validUntilMs.all (fun u => context.nowMs < u) &&
    grant.remainingUses != some 0

/-- The `min_by_key` key of `select_grant`; a `Reverse` is a negation. -/
def grantOrder (g : AutonomyGrant) : Bool × ℕ × Bool × Bool × ℕ × Bool × ℤ × ℤ × String × ℤ :=
  (g.scope.canonicalArgumentDigest.isNone, riskRank g.maximumRisk, g.effect != .approvalRequired,
    g.remainingUses.isNone, g.remainingUses.getD (2 ^ 32 - 1), g.validUntilMs.isNone,
    g.validUntilMs.getD (2 ^ 63 - 1), -g.validFromMs, g.id, -(g.revision : ℤ))

/-- `select_grant`: the first of the least matching grants. -/
def selectGrant (context : PolicyContext) (grants : List AutonomyGrant) : Option AutonomyGrant :=
  (grants.filter fun g => grantMatches g context).foldl (fun best g =>
    match best with
    | none => some g
    | some b => if compare (grantOrder g) (grantOrder b) = .lt then some g else some b) none

/-- `reason`: an audit reason, through `expect`. -/
def reason (code : PolicyReasonCode) (effectiveRisk : RiskLevel) (policyRevision : ℕ)
    (grant : Option AutonomyGrant) : Except PolicyFault PolicyReason :=
  let r : PolicyReason := { code, effectiveRisk, policyRevision, grantId := grant.map (·.id)
                            grantRevision := grant.map (·.revision) }
  match r.validate with
  | .ok () => .ok r
  | .error _ => .error .panicked

/-- The consumption proposal of a counted grant. -/
def grantConsumption (grant : AutonomyGrant) (context : PolicyContext) : PolicyResult (Option GrantConsumption) :=
  match grant.remainingUses with
  | none => .ok none
  | some _ => (GrantConsumption.new grant.id grant.revision context.logicalInvocationId).map some

/-- The decision of `evaluate` that no grant makes. -/
def defaultDecision (context : PolicyContext) : Except PolicyFault PolicyDecision :=
  let risk := context.effectiveRisk
  if context.restrictions.deny then
    PolicyDecision.deny <$> reason .deniedByRestriction risk context.policyRevision none
  else if risk = .critical then
    PolicyDecision.deny <$> reason .deniedByDefault risk context.policyRevision none
  else if riskRank .medium ≤ riskRank risk then
    PolicyDecision.requireApproval <$> reason .approvalRequired risk context.policyRevision none
  else
    PolicyDecision.allow <$> reason .allowedByDefault risk context.policyRevision none

def evaluateDefault (context : PolicyContext) : Except PolicyFault PolicyEvaluation := do
  let decision ← defaultDecision context
  PolicyResult.orFault (PolicyEvaluation.new decision none)

def evaluate (context : PolicyContext) (grants : List AutonomyGrant) : Except PolicyFault PolicyEvaluation := do
  PolicyResult.orFault context.validateEvaluationInput
  PolicyResult.orFault (validateGrantSet grants)
  let risk := context.effectiveRisk
  match selectGrant context grants with
  | none => evaluateDefault context
  | some grant =>
    if grant.effect = .approvalRequired ∧
        (context.restrictions.deny ∨ risk = .critical ∨ riskRank .medium ≤ riskRank risk) then
      let r ← reason .approvalRequired risk context.policyRevision (some grant)
      PolicyResult.orFault (PolicyEvaluation.new (.requireApproval r) none)
    else if grant.effect = .autoAllow then
      let code := if context.requiresExactArgumentScope then .allowedByExactGrantOverride else .allowedByGrant
      let r ← reason code risk context.policyRevision (some grant)
      let consumption ← PolicyResult.orFault (grantConsumption grant context)
      PolicyResult.orFault (PolicyEvaluation.new (.allow r) consumption)
    else evaluateDefault context

/-- The binding checks of `validate_approval_with_grants`, in source order. -/
def validateApprovalBinding (approval : ApprovalDecision) (context : PolicyContext)
    (grants : List AutonomyGrant) : Except ApprovalValidity Unit := do
  let request := approval.request
  ensure (validateGrantSet grants = .ok ()) .invalidGrant
  ensure (context.validateEvaluationInput = .ok () ∧ approval.validate = .ok ()) .invalidBinding
  ensure (approval.kind = .approve) .invalidDecision
  ensure (approval.decidedAtMs ≤ context.nowMs) .invalidBinding
  ensure (context.nowMs < request.expiresAtMs) .expired
  ensure (request.ownerId = context.ownerId) .invalidOwner
  ensure (request.actorId = context.actorId) .invalidActor
  ensure (request.agentDefinitionId = context.agentDefinitionId ∧
    request.agentDefinitionVersion = context.agentDefinitionVersion) .invalidDefinition
  ensure (request.workspaceId = context.workspaceId) .invalidWorkspace
  ensure (request.resourceBoundary = context.resourceBoundary) .invalidResource
  ensure (request.restrictions = context.restrictions) .invalidRestrictions
  ensure (request.runId = context.runId) .invalidRun
  ensure (request.logicalStepId = context.logicalStepId) .invalidStep
  ensure (request.canonicalArgumentDigest = context.canonicalArgumentDigest) .invalidArguments
  ensure (request.logicalInvocationId = context.logicalInvocationId) .invalidInvocation
  ensure (request.capabilityId = context.capabilityId ∧ request.manifestVersion = context.manifestVersion)
    .invalidManifest
  ensure (request.effectiveRisk = context.effectiveRisk) .invalidRisk
  match request.grantId, request.grantRevision with
  | none, none => .ok ()
  | some id, some revision =>
    match validatedGrantByIdentity grants id revision with
    | .ok (some grant) =>
      ensure (grant.effect = .approvalRequired ∧ grantMatches grant context = true ∧
        grant.remainingUses = request.grantRemainingUses) .invalidGrant
    | _ => .error .invalidGrant
  | _, _ => .error .invalidGrant

def validateApprovalWithGrants (approval : ApprovalDecision) (context : PolicyContext)
    (grants : List AutonomyGrant) : ApprovalValidity :=
  match validateApprovalBinding approval context grants with
  | .ok () => .valid
  | .error validity => validity

/-- The allowing evaluation of a validated approval, bound to the grant it names. -/
def allowByApproval (context : PolicyContext) (boundGrant : Option AutonomyGrant) :
    Except PolicyFault PolicyEvaluation := do
  let consumption ← match boundGrant with
    | none => .ok none
    | some grant => PolicyResult.orFault (grantConsumption grant context)
  let r ← reason .allowedByApproval context.effectiveRisk context.policyRevision boundGrant
  PolicyResult.orFault (PolicyEvaluation.new (.allow r) consumption)

def evaluateWithApproval (context : PolicyContext) (grants : List AutonomyGrant)
    (approval : Option ApprovalDecision) : Except PolicyFault PolicyEvaluation := do
  let initial ← evaluate context grants
  match initial.decision, approval with
  | .requireApproval _, some approval =>
    if validateApprovalWithGrants approval context grants = .valid then
      match approval.request.grantId, approval.request.grantRevision with
      | some id, some revision => do
        let boundGrant ← PolicyResult.orFault (validatedGrantByIdentity grants id revision)
        allowByApproval context boundGrant
      | none, none => allowByApproval context none
      | _, _ => return initial
    else return initial
  | _, _ => return initial

def approvalRequest (context : PolicyContext) (grant : Option AutonomyGrant) :
    Except PolicyFault ApprovalRequest := do
  PolicyResult.orFault context.validateEvaluationInput
  PolicyResult.orFault (ensure (grant.all (fun g => grantMatches g context) = true) .suppliedGrantDoesNotMatch)
  let evaluation ← evaluate context grant.toList
  match evaluation.decision with
  | .requireApproval _ =>
    let expiresAtMs ← PolicyResult.orFault
      (okOr (checkedAddInt 64 context.nowMs approvalWindowMs) .approvalWindowOverflow)
    let r ← reason .approvalRequired context.effectiveRisk context.policyRevision grant
    let request : ApprovalRequest :=
      { ownerId := context.ownerId, actorId := context.actorId, agentDefinitionId := context.agentDefinitionId
        agentDefinitionVersion := context.agentDefinitionVersion, workspaceId := context.workspaceId
        resourceBoundary := context.resourceBoundary, restrictions := context.restrictions
        runId := context.runId, logicalStepId := context.logicalStepId
        logicalInvocationId := context.logicalInvocationId, capabilityId := context.capabilityId
        manifestVersion := context.manifestVersion, canonicalArgumentDigest := context.canonicalArgumentDigest
        effectiveRisk := context.effectiveRisk, reason := r, policyRevision := context.policyRevision
        grantId := grant.map (·.id), grantRevision := grant.map (·.revision)
        grantRemainingUses := grant.bind (·.remainingUses), requestedAtMs := context.nowMs, expiresAtMs }
    PolicyResult.orFault request.validate
    return request
  | _ => .error (.invalid .approvalNotRequired)

end PolicyEngine

/-! ## What an evaluation carries -/

theorem GrantConsumption.validate_eq_ok {c : GrantConsumption} (h : c.validate = .ok ()) :
    c.grantRevision ≠ 0 ∧ isNil c.logicalInvocationId = false := by
  simp only [GrantConsumption.validate, bind_eq_ok, ensure_eq_ok] at h
  obtain ⟨_, _, _, hr, hi⟩ := h
  exact ⟨hr, hi⟩

theorem ApprovalDecision.validate_eq_ok {d : ApprovalDecision} (h : d.validate = .ok ()) :
    d.request.validate = .ok () ∧ d.request.requestedAtMs ≤ d.decidedAtMs ∧
      d.decidedAtMs < d.request.expiresAtMs := by
  simp only [ApprovalDecision.validate, bind_eq_ok, ensure_eq_ok] at h
  obtain ⟨_, hr, _, _, _, _, ht⟩ := h
  exact ⟨hr, ht⟩

namespace PolicyEngine

variable {context : PolicyContext} {grants : List AutonomyGrant} {ev : PolicyEvaluation}

theorem validateApprovalWithGrants_eq_valid {approval : ApprovalDecision} :
    validateApprovalWithGrants approval context grants = .valid ↔
      validateApprovalBinding approval context grants = .ok () := by
  unfold validateApprovalWithGrants
  cases hb : validateApprovalBinding approval context grants with
  | ok u => simp
  | error validity =>
    refine ⟨fun h => ?_, fun h => by cases h⟩
    dsimp only at h
    subst h
    simp only [validateApprovalBinding, bind_eq_error, ensure_eq_error, reduceCtorEq, and_false, false_or] at hb
    obtain ⟨_, _, _, _, _, _, _, _, _, _, hb⟩ := hb
    obtain ⟨_, _, _, _, _, _, _, _, _, _, hb⟩ := hb
    obtain ⟨_, _, _, _, _, _, _, _, _, _, hb⟩ := hb
    obtain ⟨_, _, _, _, hb⟩ := hb
    split at hb
    · simp at hb
    · split at hb <;> simp at hb
    · simp at hb

end PolicyEngine

end AnimaCore
