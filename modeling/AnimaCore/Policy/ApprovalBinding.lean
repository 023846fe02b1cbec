import AnimaCore.Policy.ExactGrant

/-!
# AnimaCore.Policy.ApprovalBinding — what a valid approval is bound to

`approval_request` writes some twenty fields of a request, and `validate_approval_with_grants` reads them back one by one.

* `requestFor`: the request for a context and a grant, as the builder fills it in.
-/

namespace AnimaCore

open Lib

namespace PolicyEngine

/-- The request that a context and a grant call for, under a policy revision and with the two times. -/
def requestFor (context : PolicyContext) (grant : Option AutonomyGrant) (policyRevision : ℕ) (requestedAtMs expiresAtMs : ℤ) :
    ApprovalRequest :=
  { ownerId := context.ownerId, actorId := context.actorId, agentDefinitionId := context.agentDefinitionId
    agentDefinitionVersion := context.agentDefinitionVersion, workspaceId := context.workspaceId
    resourceBoundary := context.resourceBoundary, restrictions := context.restrictions
    runId := context.runId, logicalStepId := context.logicalStepId
    logicalInvocationId := context.logicalInvocationId, capabilityId := context.capabilityId
    manifestVersion := context.manifestVersion, canonicalArgumentDigest := context.canonicalArgumentDigest
    effectiveRisk := context.effectiveRisk
    reason := { code := .approvalRequired, effectiveRisk := context.effectiveRisk, policyRevision
                grantId := grant.map (·.id), grantRevision := grant.map (·.revision) }
    policyRevision, grantId := grant.map (·.id), grantRevision := grant.map (·.revision)
    grantRemainingUses := grant.bind (·.remainingUses), requestedAtMs, expiresAtMs }

variable {context : PolicyContext} {grants : List AutonomyGrant} {grant : Option AutonomyGrant}

theorem reason_eq {code : PolicyReasonCode} {risk : RiskLevel} {revision : ℕ} {r : PolicyReason}
    (h : reason code risk revision grant = .ok r) :
    r = { code, effectiveRisk := risk, policyRevision := revision, grantId := grant.map (·.id)
          grantRevision := grant.map (·.revision) } := by
  unfold reason at h
  dsimp only at h
  split at h
  · cases h
    rfl
  · cases h

theorem approvalRequest_eq_ok {request : ApprovalRequest} (h : approvalRequest context grant = .ok request) :
    ∃ expiresAtMs, request = requestFor context grant context.policyRevision context.nowMs expiresAtMs := by
  unfold approvalRequest at h
  simp only [bind_eq_ok, orFault_eq_ok] at h
  obtain ⟨_, _, _, _, evaluation, _, h⟩ := h
  split at h
  · simp only [bind_eq_ok, orFault_eq_ok] at h
    obtain ⟨expiresAtMs, _, r, hr, _, _, h⟩ := h
    cases h
    rw [reason_eq hr]
    exact ⟨expiresAtMs, rfl⟩
  · cases h

theorem request_validate_fields {r : ApprovalRequest} (h : r.validate = .ok ()) :
    r.reason = { code := .approvalRequired, effectiveRisk := r.effectiveRisk, policyRevision := r.policyRevision
                 grantId := r.grantId, grantRevision := r.grantRevision } ∧
      (r.grantId = none → r.grantRemainingUses = none) := by
  simp only [ApprovalRequest.validate, bind_eq_ok, ensure_eq_ok] at h
  obtain ⟨_, _, _, _, _, _, _, _, _, _, _, _, _, _, _, _, _, hbound, hgrant⟩ := h
  obtain ⟨_, _, hrisk, hrevision, hcode, hid, hgrantRevision⟩ := hbound
  refine ⟨?_, fun hnone => ?_⟩
  · rcases hreason : r.reason with ⟨code, risk, revision, id, grantRevision⟩
    rw [hreason] at hrisk hrevision hcode hid hgrantRevision
    simp only at hrisk hrevision hcode hid hgrantRevision
    rw [hrisk, hrevision, hcode, hid, hgrantRevision]
  · unfold ApprovalRequest.validateGrant at hgrant
    rw [hnone] at hgrant
    rcases hrev : r.grantRevision with _ | revision
    · rcases huses : r.grantRemainingUses with _ | uses
      · rfl
      · rw [hrev, huses] at hgrant
        cases hgrant
    · rw [hrev] at hgrant
      cases hgrant

/-- The grant that a request names, as the validator finds it. -/
def Names (grants : List AutonomyGrant) (context : PolicyContext) (request : ApprovalRequest) (grant : Option AutonomyGrant) :
    Prop :=
  request.grantId = grant.map (·.id) ∧ request.grantRevision = grant.map (·.revision) ∧
    request.grantRemainingUses = grant.bind (·.remainingUses) ∧
    ∀ g, grant = some g → g ∈ grants ∧ g.effect = .approvalRequired ∧ grantMatches g context = true

theorem binding_fields {approval : ApprovalDecision} (h : validateApprovalBinding approval context grants = .ok ()) :
    approval.kind = .approve ∧ approval.decidedAtMs ≤ context.nowMs ∧ context.nowMs < approval.request.expiresAtMs ∧
      ∃ grant, Names grants context approval.request grant ∧ approval.request =
        requestFor context grant approval.request.policyRevision approval.request.requestedAtMs approval.request.expiresAtMs := by
  simp only [validateApprovalBinding, bind_eq_ok, ensure_eq_ok] at h
  obtain ⟨_, _, _, ⟨_, hvalid⟩, _, hkind, _, hdecided, _, hexpires, h⟩ := h
  obtain ⟨_, howner, _, hactor, _, ⟨hdefinition, hversion⟩, _, hworkspace, _, hresource, _, hrestrictions, h⟩ := h
  obtain ⟨_, hrun, _, hstep, _, harguments, _, hinvocation, _, ⟨hcapability, hmanifest⟩, _, hrisk, hgrant⟩ := h
  obtain ⟨hreason, huses⟩ := request_validate_fields (ApprovalDecision.validate_eq_ok hvalid).1
  have hnamed : ∃ grant, Names grants context approval.request grant := by
    split at hgrant
    · next hid hrev =>
      refine ⟨none, hid, hrev, huses hid, ?_⟩
      intro g hg
      cases hg
    · next id revision hid hrev =>
      split at hgrant
      · next g hfind =>
        obtain ⟨heffect, hmatch, hleft⟩ := ensure_eq_ok.mp hgrant
        obtain ⟨hgid, hgrev⟩ := validatedGrantByIdentity_eq hfind
        refine ⟨some g, ?_, ?_, hleft.symm, ?_⟩
        · rw [hid, Option.map_some, hgid]
        · rw [hrev, Option.map_some, hgrev]
        · intro g' hg'
          cases hg'
          exact ⟨validatedGrantByIdentity_mem hfind, heffect, hmatch⟩
      · cases hgrant
    · cases hgrant
  refine ⟨hkind, hdecided, hexpires, ?_⟩
  obtain ⟨grant, hnames⟩ := hnamed
  obtain ⟨hid, hrev, hleft, _⟩ := id hnames
  refine ⟨grant, hnames, ?_⟩
  generalize approval.request = request at *
  obtain ⟨_, _, _, _, _, _, _, _, _, _, _, _, _, _, _, _, _, _, _, _, _⟩ := request
  simp only at *
  subst howner hactor hdefinition hversion hworkspace hresource hrestrictions hrun hstep harguments hinvocation hcapability
  subst hmanifest hrisk hid hrev hleft hreason
  rfl

end PolicyEngine

open PolicyEngine in
/-- **A valid approval fits its context.**  It is an approval that was given by now and has not expired, and its request is the
one that the context and the grant it names call for, but for the two times and the policy revision. -/
theorem valid_approval_fits_context (approval : ApprovalDecision) (context : PolicyContext) (grants : List AutonomyGrant)
    (h : validateApprovalWithGrants approval context grants = .valid) :
    approval.kind = .approve ∧ approval.decidedAtMs ≤ context.nowMs ∧ context.nowMs < approval.request.expiresAtMs ∧
      ∃ grant, Names grants context approval.request grant ∧
        approval.request = requestFor context grant approval.request.policyRevision approval.request.requestedAtMs
          approval.request.expiresAtMs ∧
        ∀ built, approvalRequest context grant = .ok built → approval.request =
          { built with
            policyRevision := approval.request.policyRevision
            reason := { built.reason with policyRevision := approval.request.policyRevision }
            requestedAtMs := approval.request.requestedAtMs
            expiresAtMs := approval.request.expiresAtMs } := by
  obtain ⟨hkind, hdecided, hexpires, grant, hnames, hrequest⟩ :=
    binding_fields (validateApprovalWithGrants_eq_valid.mp h)
  refine ⟨hkind, hdecided, hexpires, grant, hnames, hrequest, fun built hbuilt => ?_⟩
  obtain ⟨expiresAtMs, rfl⟩ := approvalRequest_eq_ok hbuilt
  exact hrequest

namespace Sample

/-- An approval of the critical call, bound to the counted grant. -/
def boundApproval : ApprovalDecision :=
  let request := PolicyEngine.requestFor criticalContext (some (approvalGrant .approvalRequired)) 1 1000 301000
  { request, kind := .approve, decidedAtMs := 1000, binding := some { request, kind := .approve, decidedAtMs := 1000 } }

end Sample

/-- The approval of the critical call fits it. -/
theorem bound_approval_fits :
    Sample.boundApproval.request.grantId = some "grant" ∧
      Sample.boundApproval.kind = .approve ∧ Sample.boundApproval.decidedAtMs ≤ Sample.criticalContext.nowMs := by
  have hvalid : PolicyEngine.validateApprovalWithGrants Sample.boundApproval Sample.criticalContext
      [Sample.approvalGrant .approvalRequired] = .valid := by decide +kernel
  obtain ⟨hkind, hdecided, _⟩ := valid_approval_fits_context _ _ _ hvalid
  exact ⟨rfl, hkind, hdecided⟩

/-- An approval that was given under one policy revision is valid under the next. -/
theorem approval_outlives_policy_revision :
    ¬ ∀ (approval : ApprovalDecision) (context : PolicyContext) (grants : List AutonomyGrant),
      context.validateEvaluationInput = .ok () →
      PolicyEngine.validateApprovalWithGrants approval context grants = .valid →
        approval.request.policyRevision = context.policyRevision := by
  intro h
  have hsame := h Sample.boundApproval { Sample.criticalContext with policyRevision := 2 }
    [Sample.approvalGrant .approvalRequired] (by decide +kernel) (by decide +kernel)
  exact absurd hsame (by decide +kernel)

end AnimaCore
