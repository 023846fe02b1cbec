import AnimaCore.Policy

/-!
# AnimaCore.Policy.ExactGrant — critical and denied actions

A context that is critical, or whose restrictions deny, is allowed by a grant bound to its very arguments or not at
all.  The engine has two allowing paths: the selected auto-allow grant, and an approval over a selected
approval-required grant.  On the second path the grant is the one the *approval* names, not the selected one.

* `UnboundApproval`: the inputs on which the second path allows without any grant.
-/

namespace AnimaCore

open Lib

/-- What a grant must be to stand for one critical or denied action. -/
structure ExactGrantFor (context : PolicyContext) (grant : AutonomyGrant) : Prop where
  active : grant.status = .active
  started : grant.validFromMs ≤ context.nowMs
  open_ : ∀ u, grant.validUntilMs = some u → context.nowMs < u
  uses : grant.remainingUses ≠ some 0
  owner : grant.scope.ownerId = context.ownerId
  actor : grant.scope.actorId = context.actorId
  agentDefinition : grant.scope.agentDefinitionId = context.agentDefinitionId
  agentDefinitionVersion : grant.scope.agentDefinitionVersion = context.agentDefinitionVersion
  workspace : grant.scope.workspaceId = context.workspaceId
  resource : grant.scope.resourceBoundary = context.resourceBoundary
  capability : grant.scope.capabilityId = context.capabilityId
  manifestVersion : grant.scope.manifestVersion = context.manifestVersion
  arguments : grant.scope.canonicalArgumentDigest = some context.canonicalArgumentDigest
  risk : riskRank context.effectiveRisk ≤ riskRank grant.maximumRisk

/-- An allowing evaluation names an exact grant of the list, and consumes it if it is counted. -/
def AllowsExactly (context : PolicyContext) (grants : List AutonomyGrant) (ev : PolicyEvaluation) : Prop :=
  ∀ r, ev.decision = .allow r → ∃ grant ∈ grants, ExactGrantFor context grant ∧ r.grantId = some grant.id ∧
    r.grantRevision = some grant.revision ∧
    (grant.remainingUses ≠ none → ev.consumption =
      some { grantId := grant.id, grantRevision := grant.revision, logicalInvocationId := context.logicalInvocationId })

/-- The selected grant asks for an approval, and the valid approval at hand names no grant. -/
def UnboundApproval (context : PolicyContext) (grants : List AutonomyGrant) (approval : Option ApprovalDecision) : Prop :=
  (∃ grant, PolicyEngine.selectGrant context grants = some grant ∧ grant.effect = .approvalRequired) ∧
    ∃ a, approval = some a ∧ a.request.grantId = none ∧
      PolicyEngine.validateApprovalWithGrants a context grants = .valid

namespace PolicyEngine

variable {context : PolicyContext} {grants : List AutonomyGrant} {grant : AutonomyGrant}

/-! ## Matching and selection -/

theorem grantMatches_exact (hx : context.requiresExactArgumentScope = true)
    (h : grantMatches grant context = true) : ExactGrantFor context grant := by
  simp only [grantMatches, Bool.and_eq_true, decide_eq_true_eq, beq_iff_eq, bne_iff_ne] at h
  obtain ⟨⟨⟨⟨⟨⟨⟨⟨⟨⟨⟨⟨⟨⟨⟨_, _⟩, h1⟩, h2⟩, h3⟩, h4⟩, h5⟩, h6⟩, h7⟩, h8⟩, h9⟩, hd⟩, hr⟩, hf⟩, hu⟩, hn⟩ := h
  have harg : grant.scope.canonicalArgumentDigest = some context.canonicalArgumentDigest := by
    split at hd
    · next digest hs =>
      rw [hs, beq_iff_eq.mp hd]
    · -- a grant without a digest never matches such a context
      rw [hx] at hd
      cases hd
  have hopen : ∀ u, grant.validUntilMs = some u → context.nowMs < u := by
    intro u hs
    rw [hs] at hu
    simpa using hu
  exact ⟨h1, hf, hopen, hn, h2, h3, h4, h5, h6, h7, h8, h9, harg, hr⟩

theorem grantMatches_valid (h : grantMatches grant context = true) :
    context.validateEvaluationInput = .ok () ∧ grant.validate = .ok () := by
  simp only [grantMatches, Bool.and_eq_true, decide_eq_true_eq] at h
  obtain ⟨⟨⟨⟨⟨⟨⟨⟨⟨⟨⟨⟨⟨⟨⟨hc, hg⟩, _⟩, _⟩, _⟩, _⟩, _⟩, _⟩, _⟩, _⟩, _⟩, _⟩, _⟩, _⟩, _⟩, _⟩ := h
  exact ⟨hc, hg⟩

theorem foldl_best_mem {best : Option AutonomyGrant → AutonomyGrant → Option AutonomyGrant}
    (hbest : ∀ b g, best b g = some g ∨ best b g = b) (l : List AutonomyGrant) (b : Option AutonomyGrant)
    (h : l.foldl best b = some grant) : grant ∈ l ∨ b = some grant := by
  induction l generalizing b with
  | nil => exact Or.inr h
  | cons g l ih =>
    rw [List.foldl_cons] at h
    rcases ih _ h with hm | hb
    · exact Or.inl (List.mem_cons_of_mem g hm)
    · rcases hbest b g with hg | hkeep
      · rw [hg] at hb
        cases hb
        exact Or.inl List.mem_cons_self
      · rw [hkeep] at hb
        exact Or.inr hb

theorem selectGrant_mem (h : selectGrant context grants = some grant) :
    grant ∈ grants ∧ grantMatches grant context = true := by
  have hfold : grant ∈ grants.filter (grantMatches · context) ∨ none = some grant := by
    refine foldl_best_mem ?_ _ none h
    intro b g
    cases b with
    | none => exact Or.inl rfl
    | some b =>
      dsimp only
      split_ifs
      · exact Or.inl rfl
      · exact Or.inr rfl
  rcases hfold with hm | hn
  · exact List.mem_filter.mp hm
  · cases hn

/-! ## Audit records -/

theorem effectiveRisk_ne_none (h : context.validateEvaluationInput = .ok ()) :
    context.effectiveRisk ≠ .none ∧ context.policyRevision ≠ 0 := by
  simp only [PolicyContext.validateEvaluationInput, PolicyContext.validate, bind_eq_ok, ensure_eq_ok] at h
  obtain ⟨_, ⟨_, _, _, _, _, _, _, _, _, hv, hr⟩, _⟩ := h
  refine ⟨?_, hv.2.2⟩
  unfold PolicyContext.effectiveRisk
  split
  · exact hr.1
  · next minimum hm =>
    unfold maxRisk
    split_ifs
    · exact hr.1
    · intro hn
      exact hr.2 (by rw [hm, hn])

theorem grant_validate_id (h : grant.validate = .ok ()) :
    validatePolicyIdentifier "grant_id" grant.id = .ok () ∧ 0 < grant.revision := by
  simp only [AutonomyGrant.validate, bind_eq_ok, ensure_eq_ok] at h
  obtain ⟨_, hid, _, hrev, _⟩ := h
  exact ⟨hid, Nat.pos_of_ne_zero hrev⟩

theorem reason_eq_ok {code : PolicyReasonCode} {risk : RiskLevel} {revision : ℕ} {g : Option AutonomyGrant}
    {r : PolicyReason} (h : reason code risk revision g = .ok r) :
    r.code = code ∧ r.grantId = g.map (·.id) ∧ r.grantRevision = g.map (·.revision) := by
  unfold reason at h
  dsimp only at h
  split at h
  · cases h
    exact ⟨rfl, rfl, rfl⟩
  · cases h

theorem reason_approval_ok {code : PolicyReasonCode} {g : Option AutonomyGrant}
    (hcode : code = .approvalRequired ∨ code = .allowedByApproval)
    (hc : context.validateEvaluationInput = .ok ()) (hg : ∀ g', g = some g' → g'.validate = .ok ()) :
    ∃ r, reason code context.effectiveRisk context.policyRevision g = .ok r ∧ r.validate = .ok () ∧ r.code = code ∧
      r.grantId = g.map (·.id) := by
  have hrisk := effectiveRisk_ne_none hc
  let r : PolicyReason := { code, effectiveRisk := context.effectiveRisk, policyRevision := context.policyRevision
                            grantId := g.map (·.id), grantRevision := g.map (·.revision) }
  have hhas : ∃ b, r.hasGrant = .ok b := by
    cases g with
    | none => exact ⟨false, rfl⟩
    | some g' =>
      obtain ⟨hid, hrev⟩ := grant_validate_id (hg g' rfl)
      refine ⟨true, ?_⟩
      simp only [r, PolicyReason.hasGrant, Option.map_some, if_pos hrev, bind_eq_ok]
      exact ⟨(), hid, trivial⟩
  have hvalid : r.validate = .ok () := by
    obtain ⟨b, hb⟩ := hhas
    simp only [PolicyReason.validate, bind_eq_ok, ensure_eq_ok]
    refine ⟨(), hrisk, b, hb, ?_⟩
    rcases hcode with rfl | rfl <;> rfl
  refine ⟨r, ?_, hvalid, rfl, rfl⟩
  unfold reason
  dsimp only
  rw [show PolicyReason.validate _ = .ok () from hvalid]

theorem new_decision {decision : PolicyDecision} {consumption : Option GrantConsumption} {ev : PolicyEvaluation}
    (h : PolicyEvaluation.new decision consumption = .ok ev) :
    ev.decision = decision ∧ ev.consumption = consumption := by
  simp only [PolicyEvaluation.new, bind_eq_ok] at h
  obtain ⟨_, _, h⟩ := h
  cases consumption with
  | none =>
    cases h
    exact ⟨rfl, rfl⟩
  | some c =>
    simp only [bind_eq_ok] at h
    obtain ⟨_, _, h⟩ := h
    cases decision with
    | allow r =>
      simp only [bind_eq_ok] at h
      obtain ⟨_, _, h⟩ := h
      cases h
      exact ⟨rfl, rfl⟩
    | requireApproval r => simp at h
    | deny r => simp at h

theorem grantConsumption_eq_ok {consumption : Option GrantConsumption}
    (h : grantConsumption grant context = .ok consumption) (hn : grant.remainingUses ≠ none) :
    consumption = some { grantId := grant.id, grantRevision := grant.revision
                         logicalInvocationId := context.logicalInvocationId } := by
  unfold grantConsumption at h
  split at h
  · next hs => exact absurd hs hn
  · simp only [GrantConsumption.new] at h
    cases hv : GrantConsumption.validate
        { grantId := grant.id, grantRevision := grant.revision, logicalInvocationId := context.logicalInvocationId } with
    | ok u =>
      rw [hv] at h
      cases h
      rfl
    | error e =>
      rw [hv] at h
      cases h

/-! ## The two allowing paths -/

theorem allowsExactly_of_grant {code : PolicyReasonCode} {r : PolicyReason} {consumption : Option GrantConsumption}
    {ev : PolicyEvaluation} (hm : grant ∈ grants) (hx : ExactGrantFor context grant)
    (hr : reason code context.effectiveRisk context.policyRevision (some grant) = .ok r)
    (hc : grantConsumption grant context = .ok consumption)
    (hev : PolicyEvaluation.new (.allow r) consumption = .ok ev) : AllowsExactly context grants ev := by
  intro r' hr'
  obtain ⟨hd, hcons⟩ := new_decision hev
  have hrr : r' = r := by
    rw [hd] at hr'
    exact (PolicyDecision.allow.inj hr').symm
  subst hrr
  obtain ⟨_, hid, hrev⟩ := reason_eq_ok hr
  refine ⟨grant, hm, hx, hid, hrev, fun hn => ?_⟩
  rw [hcons]
  exact grantConsumption_eq_ok hc hn

theorem deny_or_critical (hx : context.requiresExactArgumentScope = true) :
    context.restrictions.deny = true ∨ context.effectiveRisk = .critical := by
  unfold PolicyContext.requiresExactArgumentScope at hx
  rw [Bool.or_eq_true, beq_iff_eq] at hx
  exact hx.symm

theorem evaluateDefault_denies {ev : PolicyEvaluation} (hx : context.requiresExactArgumentScope = true)
    (h : evaluateDefault context = .ok ev) : ∃ r, ev.decision = .deny r := by
  simp only [evaluateDefault, bind_eq_ok, orFault_eq_ok] at h
  obtain ⟨decision, hdec, hnew⟩ := h
  have hden : ∃ r, decision = .deny r := by
    unfold defaultDecision at hdec
    dsimp only at hdec
    by_cases hd : context.restrictions.deny = true
    · rw [if_pos hd, map_eq_ok] at hdec
      obtain ⟨r, _, hr⟩ := hdec
      exact ⟨r, hr.symm⟩
    · have hc : context.effectiveRisk = .critical := (deny_or_critical hx).resolve_left hd
      rw [if_neg hd, if_pos hc, map_eq_ok] at hdec
      obtain ⟨r, _, hr⟩ := hdec
      exact ⟨r, hr.symm⟩
  obtain ⟨r, rfl⟩ := hden
  exact ⟨r, (new_decision hnew).1⟩

/-- **First path**: for such a context `evaluate` denies, asks for an approval over the selected grant, or allows
exactly. -/
theorem evaluate_exact {ev : PolicyEvaluation} (hx : context.requiresExactArgumentScope = true)
    (h : evaluate context grants = .ok ev) :
    AllowsExactly context grants ev ∧
      (∀ r, ev.decision = .requireApproval r →
        ∃ grant, selectGrant context grants = some grant ∧ grant.effect = .approvalRequired) := by
  have hcrit := deny_or_critical hx
  simp only [evaluate, bind_eq_ok] at h
  obtain ⟨_, _, _, _, h⟩ := h
  split at h
  · obtain ⟨r, hr⟩ := evaluateDefault_denies hx h
    constructor
    · intro r' hr'
      simp [hr] at hr'
    · intro r' hr'
      simp [hr] at hr'
  · next grant hsel =>
    obtain ⟨hm, hmatch⟩ := selectGrant_mem hsel
    cases heff : grant.effect with
    | approvalRequired =>
      have hask : context.restrictions.deny = true ∨ context.effectiveRisk = .critical ∨
          riskRank .medium ≤ riskRank context.effectiveRisk := by
        rcases hcrit with hd | hc
        · exact Or.inl hd
        · exact Or.inr (Or.inl hc)
      rw [if_pos ⟨heff, hask⟩] at h
      simp only [bind_eq_ok, orFault_eq_ok] at h
      obtain ⟨r, _, hnew⟩ := h
      have hd := (new_decision hnew).1
      refine ⟨?_, fun _ _ => ⟨grant, hsel, heff⟩⟩
      intro r' hr'
      simp [hd] at hr'
    | autoAllow =>
      rw [if_neg (by simp [heff]), if_pos heff] at h
      simp only [bind_eq_ok, orFault_eq_ok] at h
      obtain ⟨r, hr, consumption, hc, hnew⟩ := h
      have hd := (new_decision hnew).1
      refine ⟨allowsExactly_of_grant hm (grantMatches_exact hx hmatch) hr hc hnew, ?_⟩
      intro r' hr'
      simp [hd] at hr'

theorem valid_binding {a : ApprovalDecision} (h : validateApprovalWithGrants a context grants = .valid) :
    validateGrantSet grants = .ok () ∧ a.validate = .ok () ∧
      (a.request.grantId = none ∧ a.request.grantRevision = none ∨
        ∃ id revision grant, a.request.grantId = some id ∧ a.request.grantRevision = some revision ∧
          validatedGrantByIdentity grants id revision = .ok (some grant) ∧ grantMatches grant context = true) := by
  have hb := validateApprovalWithGrants_eq_valid.mp h
  simp only [validateApprovalBinding, bind_eq_ok, ensure_eq_ok] at hb
  obtain ⟨_, hset, _, ⟨_, ha⟩, hb⟩ := hb
  refine ⟨hset, ha, ?_⟩
  obtain ⟨_, _, _, _, _, _, _, _, _, _, _, _, _, _, _, _, hb⟩ := hb
  obtain ⟨_, _, _, _, _, _, _, _, _, _, _, _, _, _, hb⟩ := hb
  split at hb
  · next hid hrev => exact Or.inl ⟨hid, hrev⟩
  · next id revision hid hrev =>
    split at hb
    · next grant hg => exact Or.inr ⟨id, revision, grant, hid, hrev, hg, (ensure_eq_ok.mp hb).2.1⟩
    · cases hb
  · cases hb

theorem validatedGrantByIdentity_mem {id : String} {revision : ℕ}
    (h : validatedGrantByIdentity grants id revision = .ok (some grant)) : grant ∈ grants := by
  simp only [validatedGrantByIdentity, bind_eq_ok] at h
  obtain ⟨_, _, h⟩ := h
  cases h' : grants.find? (fun g => g.id == id && g.revision == revision) with
  | none =>
    rw [h'] at h
    cases h
  | some g =>
    rw [h'] at h
    cases h
    exact List.mem_of_find?_eq_some h'

theorem validatedGrantByIdentity_eq {id : String} {revision : ℕ}
    (h : validatedGrantByIdentity grants id revision = .ok (some grant)) : grant.id = id ∧ grant.revision = revision := by
  simp only [validatedGrantByIdentity, bind_eq_ok] at h
  obtain ⟨_, _, h⟩ := h
  cases h' : grants.find? (fun g => g.id == id && g.revision == revision) with
  | none =>
    rw [h'] at h
    cases h
  | some g =>
    rw [h'] at h
    cases h
    have hkey := List.find?_some h'
    rw [Bool.and_eq_true, beq_iff_eq, beq_iff_eq] at hkey
    exact hkey

theorem allowByApproval_exact {ev : PolicyEvaluation} (hm : grant ∈ grants) (hx : ExactGrantFor context grant)
    (h : allowByApproval context (some grant) = .ok ev) : AllowsExactly context grants ev := by
  simp only [allowByApproval, bind_eq_ok, orFault_eq_ok] at h
  obtain ⟨consumption, hc, r, hr, hnew⟩ := h
  exact allowsExactly_of_grant hm hx hr hc hnew

theorem allowByApproval_none (hc : context.validateEvaluationInput = .ok ()) :
    ∃ ev r, allowByApproval context none = .ok ev ∧ ev.decision = .allow r ∧ r.grantId = none := by
  obtain ⟨r, hr, hv, hcode, hid⟩ := reason_approval_ok (g := none) (Or.inr rfl) hc (by simp)
  refine ⟨{ decision := .allow r, consumption := none }, r, ?_, rfl, hid⟩
  have hd : (PolicyDecision.allow r).validate = .ok () := by
    simp only [PolicyDecision.validate, PolicyDecision.reason, bind_eq_ok, ensure_eq_ok]
    exact ⟨(), hv, Or.inr (Or.inr (Or.inr hcode))⟩
  simp only [allowByApproval, bind_eq_ok, orFault_eq_ok, PolicyEvaluation.new]
  exact ⟨none, rfl, r, hr, (), hd, rfl⟩

theorem evaluate_requires (hx : context.requiresExactArgumentScope = true)
    (hset : validateGrantSet grants = .ok ()) (hsel : selectGrant context grants = some grant)
    (heff : grant.effect = .approvalRequired) :
    ∃ ev r, evaluate context grants = .ok ev ∧ ev.decision = .requireApproval r := by
  obtain ⟨_, hmatch⟩ := selectGrant_mem hsel
  obtain ⟨hc, hg⟩ := grantMatches_valid hmatch
  obtain ⟨r, hr, hv, hcode, _⟩ := reason_approval_ok (g := some grant) (Or.inl rfl) hc
    (fun g' hg' => by cases hg'; exact hg)
  have hask : context.restrictions.deny = true ∨ context.effectiveRisk = .critical ∨
      riskRank .medium ≤ riskRank context.effectiveRisk :=
    (deny_or_critical hx).imp_right Or.inl
  refine ⟨{ decision := .requireApproval r, consumption := none }, r, ?_, rfl⟩
  have hd : (PolicyDecision.requireApproval r).validate = .ok () := by
    simp only [PolicyDecision.validate, PolicyDecision.reason, bind_eq_ok, ensure_eq_ok]
    exact ⟨(), hv, hcode⟩
  simp only [evaluate, bind_eq_ok, orFault_eq_ok]
  refine ⟨(), hc, (), hset, ?_⟩
  rw [hsel]
  dsimp only
  rw [if_pos ⟨heff, hask⟩]
  simp only [bind_eq_ok, orFault_eq_ok, PolicyEvaluation.new]
  exact ⟨r, hr, (), hd, rfl⟩

theorem evaluateWithApproval_valid {a : ApprovalDecision} {initial : PolicyEvaluation} {r : PolicyReason}
    (hi : evaluate context grants = .ok initial) (hd : initial.decision = .requireApproval r)
    (hv : validateApprovalWithGrants a context grants = .valid) :
    a.request.grantId = none ∧ evaluateWithApproval context grants (some a) = allowByApproval context none ∨
      ∃ grant ∈ grants, a.request.grantId ≠ none ∧ grantMatches grant context = true ∧
        evaluateWithApproval context grants (some a) = allowByApproval context (some grant) := by
  obtain ⟨_, _, hbound⟩ := valid_binding hv
  unfold evaluateWithApproval
  rw [hi]
  simp only [bind, Except.bind, hd]
  rw [if_pos hv]
  rcases hbound with ⟨hid, hrev⟩ | ⟨id, revision, grant, hid, hrev, hfind, hmatch⟩
  · left
    rw [hid, hrev]
    exact ⟨rfl, rfl⟩
  · right
    refine ⟨grant, validatedGrantByIdentity_mem hfind, by simp [hid], hmatch, ?_⟩
    rw [hid, hrev]
    dsimp only
    rw [hfind]
    rfl

theorem evaluateWithApproval_initial {approval : Option ApprovalDecision} {initial : PolicyEvaluation}
    (hi : evaluate context grants = .ok initial)
    (h : ¬∃ a r, approval = some a ∧ initial.decision = .requireApproval r ∧
      validateApprovalWithGrants a context grants = .valid) :
    evaluateWithApproval context grants approval = .ok initial := by
  unfold evaluateWithApproval
  rw [hi]
  simp only [bind, Except.bind]
  split
  · next r a hd =>
    have hv : validateApprovalWithGrants a context grants ≠ .valid := fun hv => h ⟨a, r, rfl, hd, hv⟩
    rw [if_neg hv]
    rfl
  · rfl

end PolicyEngine

open PolicyEngine in
/-- **Exact grants.**  For a verified context that is critical or denied, every allowing answer names an exact grant of
the list and consumes it when it is counted — unless the selected grant asks for an approval and the valid approval
at hand names no grant. -/
theorem critical_allow_exact_iff (context : PolicyContext) (grants : List AutonomyGrant)
    (approval : Option ApprovalDecision) (hc : context.validateEvaluationInput = .ok ())
    (hx : context.requiresExactArgumentScope = true) :
    (∀ ev, evaluateWithApproval context grants approval = .ok ev → AllowsExactly context grants ev) ↔
      ¬UnboundApproval context grants approval := by
  constructor
  · rintro h ⟨⟨grant, hsel, heff⟩, a, rfl, hid, hv⟩
    obtain ⟨hset, _, _⟩ := valid_binding hv
    obtain ⟨initial, r, hi, hd⟩ := evaluate_requires hx hset hsel heff
    obtain ⟨ev, r', hev, hdec, hnone⟩ := allowByApproval_none hc
    rcases evaluateWithApproval_valid hi hd hv with ⟨_, heq⟩ | ⟨g, _, hsome, _, _⟩
    · obtain ⟨g, _, _, hg, _⟩ := h ev (heq.trans hev) r' hdec
      rw [hnone] at hg
      cases hg
    · exact hsome hid
  · intro hbound ev hev
    have hinit : ∃ initial, evaluate context grants = .ok initial := by
      simp only [evaluateWithApproval, bind_eq_ok] at hev
      obtain ⟨initial, hi, _⟩ := hev
      exact ⟨initial, hi⟩
    obtain ⟨initial, hi⟩ := hinit
    obtain ⟨hexact, hasks⟩ := evaluate_exact hx hi
    by_cases hsecond : ∃ a r, approval = some a ∧ initial.decision = .requireApproval r ∧
        validateApprovalWithGrants a context grants = .valid
    · obtain ⟨a, r, rfl, hd, hv⟩ := hsecond
      obtain ⟨grant, hsel, heff⟩ := hasks r hd
      rcases evaluateWithApproval_valid hi hd hv with ⟨hid, _⟩ | ⟨g, hm, _, hmatch, heq⟩
      · exact absurd ⟨⟨grant, hsel, heff⟩, a, rfl, hid, hv⟩ hbound
      · rw [heq] at hev
        exact allowByApproval_exact hm (grantMatches_exact hx hmatch) hev
    · -- any other approval leaves the first answer
      have hsame := evaluateWithApproval_initial hi hsecond
      rw [hsame] at hev
      cases hev
      exact hexact

namespace Sample

def criticalContext : PolicyContext :=
  { ownerId := "owner", actorId := "actor", agentDefinitionId := "agent", agentDefinitionVersion := 1
    workspaceId := "workspace", resourceBoundary := 1#128, capabilityId := "files.delete", manifestVersion := 1
    manifestRisk := .critical, runId := 2#128, logicalStepId := "step", logicalInvocationId := 3#128
    canonicalArgumentDigest := 4#128, policyRevision := 1, restrictions := { minimumRisk := none, deny := false }
    nowMs := 1000
    provenance := some
      { manifestId := "files.delete", manifestVersion := 1, manifestRisk := .critical, runId := 2#128
        logicalStepId := "step", logicalInvocationId := 3#128, canonicalArgumentDigest := 4#128 } }

def approvalGrant (effect : GrantEffect) : AutonomyGrant :=
  { id := "grant", revision := 1, status := .active, effect
    scope := { ownerId := "owner", actorId := "actor", agentDefinitionId := "agent", agentDefinitionVersion := 1
               workspaceId := "workspace", resourceBoundary := 1#128, capabilityId := "files.delete"
               manifestVersion := 1, canonicalArgumentDigest := some 4#128 }
    maximumRisk := .critical, validFromMs := 500, validUntilMs := some 2000, remainingUses := some 1 }

/-- An approval of that call which names no grant. -/
def unboundApproval : ApprovalDecision :=
  let request : ApprovalRequest :=
    { ownerId := "owner", actorId := "actor", agentDefinitionId := "agent", agentDefinitionVersion := 1
      workspaceId := "workspace", resourceBoundary := 1#128, restrictions := { minimumRisk := none, deny := false }
      runId := 2#128, logicalStepId := "step", logicalInvocationId := 3#128, capabilityId := "files.delete"
      manifestVersion := 1, canonicalArgumentDigest := 4#128, effectiveRisk := .critical
      reason := { code := .approvalRequired, effectiveRisk := .critical, policyRevision := 1, grantId := none
                  grantRevision := none }
      policyRevision := 1, grantId := none, grantRevision := none, grantRemainingUses := none
      requestedAtMs := 1000, expiresAtMs := 301000 }
  { request, kind := .approve, decidedAtMs := 1000
    binding := some { request, kind := .approve, decidedAtMs := 1000 } }

end Sample

/-- The unbound approval is valid, and the critical call is allowed in the name of no grant. -/
theorem unbound_approval_allows_critical :
    Sample.criticalContext.validateEvaluationInput = .ok () ∧
      Sample.criticalContext.requiresExactArgumentScope = true ∧ Sample.unboundApproval.validate = .ok () ∧
      ∃ ev, PolicyEngine.evaluateWithApproval Sample.criticalContext [Sample.approvalGrant .approvalRequired]
        (some Sample.unboundApproval) = .ok ev ∧
        ¬AllowsExactly Sample.criticalContext [Sample.approvalGrant .approvalRequired] ev := by
  refine ⟨by decide +kernel, by decide +kernel, by decide +kernel, ?_⟩
  refine ⟨{ decision := .allow { code := .allowedByApproval, effectiveRisk := .critical, policyRevision := 1
                                 grantId := none, grantRevision := none }, consumption := none }, by decide +kernel, ?_⟩
  intro h
  obtain ⟨_, _, _, hg, _⟩ := h _ rfl
  cases hg

/-- With an auto-allow grant of the same scope the same approval is not read. -/
theorem sample_auto_grant_allows_exactly :
    Sample.criticalContext.requiresExactArgumentScope = true ∧
      ∀ ev, PolicyEngine.evaluateWithApproval Sample.criticalContext [Sample.approvalGrant .autoAllow]
          (some Sample.unboundApproval) = .ok ev →
        AllowsExactly Sample.criticalContext [Sample.approvalGrant .autoAllow] ev := by
  refine ⟨by decide +kernel, ?_⟩
  refine (critical_allow_exact_iff _ _ _ (by decide +kernel) (by decide +kernel)).mpr ?_
  rintro ⟨⟨grant, hsel, heff⟩, _⟩
  have hsome : PolicyEngine.selectGrant Sample.criticalContext [Sample.approvalGrant .autoAllow] =
      some (Sample.approvalGrant .autoAllow) := by decide +kernel
  rw [hsome] at hsel
  cases hsel
  cases heff

end AnimaCore
