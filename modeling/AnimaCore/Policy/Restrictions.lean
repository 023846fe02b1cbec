import AnimaCore.Policy.ExactGrant

/-!
# AnimaCore.Policy.Restrictions — what a tighter context does to a decision

A context is tightened by a higher risk floor or by a denial.  Fewer grants match then, and the decision without a grant is at
least as strict; but the narrowest grant that still matches may be another one.
-/

namespace AnimaCore

open Lib

def PolicyDecision.strictness : PolicyDecision → ℕ
  | .allow _ => 0
  | .requireApproval _ => 1
  | .deny _ => 2

namespace PolicyContext

/-- How strict the decision is that no grant makes. -/
def floor (c : PolicyContext) : ℕ :=
  if c.restrictions.deny then 2
  else if c.effectiveRisk = .critical then 2
  else if riskRank .medium ≤ riskRank c.effectiveRisk then 1
  else 0

def withMinimumRisk (c : PolicyContext) (minimum : RiskLevel) : PolicyContext :=
  { c with restrictions := { c.restrictions with minimumRisk := some minimum } }

def withDeny (c : PolicyContext) : PolicyContext := { c with restrictions := { c.restrictions with deny := true } }

/-- The second context is the first one with a higher risk floor, or with deny switched on. -/
inductive Tightened (c : PolicyContext) : PolicyContext → Prop
  | raised (minimum : RiskLevel) (h : ∀ old, c.restrictions.minimumRisk = some old → riskRank old ≤ riskRank minimum) :
    Tightened c (c.withMinimumRisk minimum)
  | denied : Tightened c c.withDeny

end PolicyContext

namespace PolicyEngine

variable {c c' : PolicyContext} {grants : List AutonomyGrant} {grant : AutonomyGrant}

/-! ## The selected grant -/

/-- What a grant asks of a context beside its risk and its restrictions. -/
def Fits (g : AutonomyGrant) (c : PolicyContext) : Prop :=
  g.status = .active ∧ g.scope.ownerId = c.ownerId ∧ g.scope.actorId = c.actorId ∧
    g.scope.agentDefinitionId = c.agentDefinitionId ∧ g.scope.agentDefinitionVersion = c.agentDefinitionVersion ∧
    g.scope.workspaceId = c.workspaceId ∧ g.scope.resourceBoundary = c.resourceBoundary ∧
    g.scope.capabilityId = c.capabilityId ∧ g.scope.manifestVersion = c.manifestVersion ∧
    (∀ digest, g.scope.canonicalArgumentDigest = some digest → digest = c.canonicalArgumentDigest) ∧
    g.validFromMs ≤ c.nowMs ∧ g.validUntilMs.all (fun u => c.nowMs < u) = true ∧ g.remainingUses ≠ some 0

theorem grantMatches_iff : grantMatches grant c = true ↔
    c.validateEvaluationInput = .ok () ∧ grant.validate = .ok () ∧ Fits grant c ∧
      (grant.scope.canonicalArgumentDigest = none → c.requiresExactArgumentScope = false) ∧
      riskRank c.effectiveRisk ≤ riskRank grant.maximumRisk := by
  simp only [grantMatches, Bool.and_eq_true, decide_eq_true_eq, beq_iff_eq, bne_iff_ne]
  unfold Fits
  rcases grant.scope.canonicalArgumentDigest with _ | digest
  · constructor
    · rintro ⟨⟨⟨⟨⟨⟨⟨⟨⟨⟨⟨⟨⟨⟨⟨hc, hg⟩, h1⟩, h2⟩, h3⟩, h4⟩, h5⟩, h6⟩, h7⟩, h8⟩, h9⟩, hd⟩, hr⟩, hf⟩, hu⟩, hn⟩
      exact ⟨hc, hg, ⟨h1, h2, h3, h4, h5, h6, h7, h8, h9, (fun _ h => by cases h), hf, hu, hn⟩, fun _ => by simpa using hd, hr⟩
    · rintro ⟨hc, hg, ⟨h1, h2, h3, h4, h5, h6, h7, h8, h9, -, hf, hu, hn⟩, hd, hr⟩
      exact ⟨⟨⟨⟨⟨⟨⟨⟨⟨⟨⟨⟨⟨⟨⟨hc, hg⟩, h1⟩, h2⟩, h3⟩, h4⟩, h5⟩, h6⟩, h7⟩, h8⟩, h9⟩, by simpa using hd⟩, hr⟩, hf⟩, hu⟩, hn⟩
  · constructor
    · rintro ⟨⟨⟨⟨⟨⟨⟨⟨⟨⟨⟨⟨⟨⟨⟨hc, hg⟩, h1⟩, h2⟩, h3⟩, h4⟩, h5⟩, h6⟩, h7⟩, h8⟩, h9⟩, hd⟩, hr⟩, hf⟩, hu⟩, hn⟩
      exact ⟨hc, hg, ⟨h1, h2, h3, h4, h5, h6, h7, h8, h9, fun _ h => by cases h; simpa using hd, hf, hu, hn⟩, (fun h => by cases h), hr⟩
    · rintro ⟨hc, hg, ⟨h1, h2, h3, h4, h5, h6, h7, h8, h9, hd, hf, hu, hn⟩, -, hr⟩
      exact ⟨⟨⟨⟨⟨⟨⟨⟨⟨⟨⟨⟨⟨⟨⟨hc, hg⟩, h1⟩, h2⟩, h3⟩, h4⟩, h5⟩, h6⟩, h7⟩, h8⟩, h9⟩, by simpa using hd⟩, hr⟩, hf⟩, hu⟩, hn⟩

theorem foldl_least (l : List AutonomyGrant) (b : Option AutonomyGrant) {best : AutonomyGrant}
    (h : l.foldl (fun best g =>
      match best with
      | none => some g
      | some b => if compare (grantOrder g) (grantOrder b) = .lt then some g else some b) b = some best) :
    (∀ g ∈ l, compare (grantOrder g) (grantOrder best) ≠ .lt) ∧
      ∀ g, b = some g → compare (grantOrder g) (grantOrder best) ≠ .lt := by
  induction l generalizing b with
  | nil =>
    refine ⟨fun _ hg => absurd hg List.not_mem_nil, fun g hg => ?_⟩
    rw [hg] at h
    cases h
    simp
  | cons x l ih =>
    rw [List.foldl_cons] at h
    obtain ⟨hrest, hnext⟩ := ih _ h
    rcases b with _ | b
    · refine ⟨fun g hg => ?_, fun g hg => by cases hg⟩
      rcases List.mem_cons.mp hg with rfl | hg
      · exact hnext g rfl
      · exact hrest g hg
    · by_cases hlt : compare (grantOrder x) (grantOrder b) = .lt
      · simp only [if_pos hlt] at hnext
        have hx := hnext x rfl
        refine ⟨fun g hg => ?_, fun g hg => ?_⟩
        · rcases List.mem_cons.mp hg with rfl | hg
          · exact hx
          · exact hrest g hg
        · cases hg
          intro hlow
          exact hx (Std.TransCmp.lt_trans hlt hlow)
      · simp only [if_neg hlt] at hnext
        have hb := hnext b rfl
        refine ⟨fun g hg => ?_, fun g hg => by cases hg; exact hb⟩
        rcases List.mem_cons.mp hg with rfl | hg
        · intro hlow
          have hle : (compare (grantOrder b) (grantOrder g)).isLE = true := by
            rw [Ordering.isLE_iff_ne_gt, Std.OrientedCmp.gt_iff_lt]
            exact hlt
          exact hb (Std.TransCmp.lt_of_isLE_of_lt hle hlow)
        · exact hrest g hg

theorem selectGrant_least (h : selectGrant c grants = some grant) {g : AutonomyGrant} (hg : g ∈ grants)
    (hmatch : grantMatches g c = true) : compare (grantOrder g) (grantOrder grant) ≠ .lt :=
  (foldl_least _ _ h).1 g (List.mem_filter.mpr ⟨hg, hmatch⟩)

theorem foldl_none (l : List AutonomyGrant) (b : Option AutonomyGrant)
    (h : l.foldl (fun best g =>
      match best with
      | none => some g
      | some b => if compare (grantOrder g) (grantOrder b) = .lt then some g else some b) b = none) : l = [] := by
  induction l generalizing b with
  | nil => rfl
  | cons x l ih =>
    rw [List.foldl_cons] at h
    have hnil := ih _ h
    subst hnil
    rcases b with _ | b
    · cases h
    · simp only [List.foldl_nil] at h
      split_ifs at h

theorem selectGrant_eq_none (h : selectGrant c grants = none) {g : AutonomyGrant} (hg : g ∈ grants) :
    grantMatches g c ≠ true := by
  intro hmatch
  have hnil := foldl_none _ _ h
  exact absurd (List.mem_filter.mpr ⟨hg, hmatch⟩) (hnil ▸ List.not_mem_nil)

/-! ## How strict a decision is -/

theorem defaultDecision_strictness {d : PolicyDecision} (h : defaultDecision c = .ok d) : d.strictness = c.floor := by
  unfold defaultDecision at h
  simp only at h
  unfold PolicyContext.floor
  by_cases hdeny : c.restrictions.deny = true
  · rw [if_pos hdeny, map_eq_ok] at h
    obtain ⟨_, _, rfl⟩ := h
    rw [if_pos hdeny]
    rfl
  · rw [if_neg hdeny] at h ⊢
    by_cases hcritical : c.effectiveRisk = .critical
    · rw [if_pos hcritical, map_eq_ok] at h
      obtain ⟨_, _, rfl⟩ := h
      rw [if_pos hcritical]
      rfl
    · rw [if_neg hcritical] at h ⊢
      by_cases hmedium : riskRank .medium ≤ riskRank c.effectiveRisk
      · rw [if_pos hmedium, map_eq_ok] at h
        obtain ⟨_, _, rfl⟩ := h
        rw [if_pos hmedium]
        rfl
      · rw [if_neg hmedium, map_eq_ok] at h
        obtain ⟨_, _, rfl⟩ := h
        rw [if_neg hmedium]
        rfl

theorem evaluateDefault_strictness {ev : PolicyEvaluation} (h : evaluateDefault c = .ok ev) :
    ev.decision.strictness = c.floor := by
  simp only [evaluateDefault, bind_eq_ok, orFault_eq_ok] at h
  obtain ⟨d, hd, hnew⟩ := h
  rw [(new_decision hnew).1]
  exact defaultDecision_strictness hd

theorem floor_pos : 0 < c.floor ↔
    c.restrictions.deny = true ∨ c.effectiveRisk = .critical ∨ riskRank .medium ≤ riskRank c.effectiveRisk := by
  unfold PolicyContext.floor
  split_ifs with hdeny hcritical hmedium
  · exact ⟨fun _ => .inl hdeny, fun _ => by omega⟩
  · exact ⟨fun _ => .inr (.inl hcritical), fun _ => by omega⟩
  · exact ⟨fun _ => .inr (.inr hmedium), fun _ => by omega⟩
  · exact ⟨fun h => absurd h (by omega), fun h => by rcases h with h | h | h <;> contradiction⟩

/-- How strict a decision is, by the selected grant: without one it is the floor, an auto-allow grant allows, and an approval
grant asks where the floor does not allow. -/
def strictnessOf (c : PolicyContext) : Option AutonomyGrant → ℕ
  | none => c.floor
  | some g => if g.effect = .autoAllow then 0 else min 1 c.floor

theorem strictnessOf_allowing (h : grant.effect = .autoAllow) : strictnessOf c (some grant) = 0 := if_pos h

theorem strictnessOf_asking (h : grant.effect = .approvalRequired) : strictnessOf c (some grant) = min 1 c.floor :=
  if_neg (by simp [h])

theorem evaluate_strictness {ev : PolicyEvaluation} (h : evaluate c grants = .ok ev) :
    ev.decision.strictness = strictnessOf c (selectGrant c grants) := by
  simp only [evaluate, bind_eq_ok] at h
  obtain ⟨_, _, _, _, h⟩ := h
  split at h
  · next hsel =>
    rw [hsel]
    exact evaluateDefault_strictness h
  · next grant hsel =>
    rw [hsel]
    rcases heffect : grant.effect with _ | _
    · rw [heffect, if_neg (by simp), if_pos rfl] at h
      simp only [bind_eq_ok, orFault_eq_ok] at h
      obtain ⟨_, _, _, _, hnew⟩ := h
      rw [(new_decision hnew).1, strictnessOf_allowing heffect]
      rfl
    · rw [heffect] at h
      rw [strictnessOf_asking heffect]
      by_cases hasks : 0 < c.floor
      · rw [if_pos ⟨rfl, floor_pos.mp hasks⟩] at h
        simp only [bind_eq_ok, orFault_eq_ok] at h
        obtain ⟨_, _, hnew⟩ := h
        rw [(new_decision hnew).1]
        show 1 = min 1 c.floor
        omega
      · rw [if_neg fun hif => hasks (floor_pos.mpr hif.2), if_neg (by simp)] at h
        rw [evaluateDefault_strictness h]
        omega

/-! ## Tightening -/

theorem riskRank_maxRisk (left right : RiskLevel) : riskRank (maxRisk left right) = max (riskRank left) (riskRank right) := by
  unfold maxRisk
  split_ifs with h
  · omega
  · omega

theorem riskRank_critical {risk : RiskLevel} : risk = .critical ↔ riskRank risk = 4 := by
  cases risk <;> simp [riskRank]

theorem Tightened.risk_le (h : c.Tightened c') : riskRank c.effectiveRisk ≤ riskRank c'.effectiveRisk := by
  cases h with
  | raised minimum hraised =>
    unfold PolicyContext.effectiveRisk PolicyContext.withMinimumRisk
    simp only
    rw [riskRank_maxRisk]
    split
    · omega
    · next old hold =>
      have := hraised old hold
      rw [riskRank_maxRisk]
      omega
  | denied => exact le_refl _

theorem Tightened.deny (h : c.Tightened c') (hdeny : c.restrictions.deny = true) : c'.restrictions.deny = true := by
  cases h with
  | raised => exact hdeny
  | denied => rfl

theorem floor_eq_two : c.floor = 2 ↔ c.restrictions.deny = true ∨ c.effectiveRisk = .critical := by
  unfold PolicyContext.floor
  split_ifs with hdeny hcritical hmedium
  · exact ⟨fun _ => .inl hdeny, fun _ => rfl⟩
  · exact ⟨fun _ => .inr hcritical, fun _ => rfl⟩
  · exact ⟨fun h => absurd h (by decide), fun h => by rcases h with h | h <;> contradiction⟩
  · exact ⟨fun h => absurd h (by decide), fun h => by rcases h with h | h <;> contradiction⟩

theorem floor_le_two : c.floor ≤ 2 := by
  unfold PolicyContext.floor
  split_ifs <;> omega

theorem critical_of_le (h : riskRank c.effectiveRisk ≤ riskRank c'.effectiveRisk) (hcritical : c.effectiveRisk = .critical) :
    c'.effectiveRisk = .critical := by
  rw [riskRank_critical] at hcritical ⊢
  have hmax : riskRank c'.effectiveRisk ≤ 4 := by cases c'.effectiveRisk <;> decide
  omega

theorem Tightened.floor_le (h : c.Tightened c') : c.floor ≤ c'.floor := by
  have hrisk := Tightened.risk_le h
  have hpos : 0 < c.floor → 0 < c'.floor := by
    rw [floor_pos, floor_pos]
    rintro (hdeny | hcritical | hmedium)
    · exact .inl (Tightened.deny h hdeny)
    · exact .inr (.inl (critical_of_le hrisk hcritical))
    · exact .inr (.inr (hmedium.trans hrisk))
  have htwo : c.floor = 2 → c'.floor = 2 := by
    rw [floor_eq_two, floor_eq_two]
    rintro (hdeny | hcritical)
    · exact .inl (Tightened.deny h hdeny)
    · exact .inr (critical_of_le hrisk hcritical)
  have := floor_le_two (c := c)
  omega

theorem Tightened.exact (h : c.Tightened c') (hexact : c.requiresExactArgumentScope = true) :
    c'.requiresExactArgumentScope = true := by
  unfold PolicyContext.requiresExactArgumentScope at hexact ⊢
  rw [Bool.or_eq_true, beq_iff_eq] at hexact ⊢
  rcases hexact with hcritical | hdeny
  · exact .inl (critical_of_le (Tightened.risk_le h) hcritical)
  · exact .inr (Tightened.deny h hdeny)

theorem Tightened.fits (h : c.Tightened c') : Fits grant c' ↔ Fits grant c := by
  cases h <;> exact Iff.rfl

theorem Tightened.matches (h : c.Tightened c') (hc : c.validateEvaluationInput = .ok ())
    (hmatch : grantMatches grant c' = true) : grantMatches grant c = true := by
  obtain ⟨_, hg, hfits, hexact, hrisk⟩ := grantMatches_iff.mp hmatch
  refine grantMatches_iff.mpr ⟨hc, hg, (Tightened.fits h).mp hfits, fun hnone => ?_, (Tightened.risk_le h).trans hrisk⟩
  by_contra hone
  rw [Tightened.exact h (by simpa using hone)] at hexact
  exact absurd (hexact hnone) (by decide)

/-- An approval grant decides in the one context, and makes way for an auto-allow grant in the other. -/
def MakesWay (grants : List AutonomyGrant) (c c' : PolicyContext) : Prop :=
  0 < c.floor ∧ ∃ asking allowing, selectGrant c grants = some asking ∧ asking.effect = .approvalRequired ∧
    selectGrant c' grants = some allowing ∧ allowing.effect = .autoAllow

theorem strictnessOf_le_iff (h : c.Tightened c') (hc : c.validateEvaluationInput = .ok ()) :
    strictnessOf c (selectGrant c grants) ≤ strictnessOf c' (selectGrant c' grants) ↔ ¬ MakesWay grants c c' := by
  have hfloor := Tightened.floor_le h
  unfold MakesWay
  rcases hsel : selectGrant c grants with _ | asking
  · -- No grant matched before, and so none matches now.
    have hnone : selectGrant c' grants = none := by
      rcases hsel' : selectGrant c' grants with _ | g
      · rfl
      · obtain ⟨hg, hmatch⟩ := selectGrant_mem hsel'
        exact absurd (Tightened.matches h hc hmatch) (selectGrant_eq_none hsel hg)
    rw [hnone]
    refine ⟨fun _ => ?_, fun _ => hfloor⟩
    rintro ⟨_, _, _, hsome, _⟩
    cases hsome
  · rcases heffect : asking.effect with _ | _
    · rw [strictnessOf_allowing heffect]
      refine ⟨fun _ => ?_, fun _ => Nat.zero_le _⟩
      rintro ⟨_, _, _, hsome, hasking, _⟩
      cases hsome
      rw [heffect] at hasking
      cases hasking
    · rw [strictnessOf_asking heffect]
      rcases hsel' : selectGrant c' grants with _ | other
      · refine ⟨fun _ => ?_, fun _ => ?_⟩
        · rintro ⟨_, _, _, _, _, hsome, _⟩
          cases hsome
        · show min 1 c.floor ≤ c'.floor
          omega
      · rcases heffect' : other.effect with _ | _
        · rw [strictnessOf_allowing heffect']
          constructor
          · rintro hle ⟨hpos, _⟩
            omega
          · intro hnot
            have hzero : ¬ 0 < c.floor := fun hpos => hnot ⟨hpos, asking, other, rfl, heffect, rfl, heffect'⟩
            omega
        · rw [strictnessOf_asking heffect']
          refine ⟨fun _ => ?_, fun _ => by omega⟩
          rintro ⟨_, _, _, _, _, hsome, hallowing⟩
          cases hsome
          rw [heffect'] at hallowing
          cases hallowing

/-- When deny is switched on no approval grant makes way: what still matches is bound to its arguments, and such grants were the
narrowest before. -/
theorem not_makesWay_withDeny (hc : c.validateEvaluationInput = .ok ()) : ¬ MakesWay grants c c.withDeny := by
  rintro ⟨_, asking, allowing, hsel, hasking, hsel', hallowing⟩
  obtain ⟨hmem, hmatch⟩ := selectGrant_mem hsel
  obtain ⟨hmem', hmatch'⟩ := selectGrant_mem hsel'
  have hbound : allowing.scope.canonicalArgumentDigest = some c.withDeny.canonicalArgumentDigest :=
    (grantMatches_exact (by simp [PolicyContext.requiresExactArgumentScope, PolicyContext.withDeny]) hmatch').arguments
  have hleast := selectGrant_least hsel hmem' (Tightened.matches .denied hc hmatch')
  -- The approval grant is bound to its arguments too, and so it still matches.
  have hasks : grantMatches asking c.withDeny = true := by
    rcases hdigest : asking.scope.canonicalArgumentDigest with _ | digest
    · refine absurd (compare_lt_of_fst ?_) hleast
      show compare allowing.scope.canonicalArgumentDigest.isNone asking.scope.canonicalArgumentDigest.isNone = .lt
      rw [hbound, hdigest]
      rfl
    · obtain ⟨_, hg, hfits, _, hrisk⟩ := grantMatches_iff.mp hmatch
      refine grantMatches_iff.mpr ⟨(grantMatches_valid hmatch').1, hg, (Tightened.fits .denied).mpr hfits, fun hnone => ?_, hrisk⟩
      rw [hdigest] at hnone
      cases hnone
  -- Neither of the two is narrower than the other, and so they have one effect.
  have hleast' := selectGrant_least hsel' hmem hasks
  have heq : grantOrder allowing = grantOrder asking := by
    refine (@Std.LawfulEqCmp.compare_eq_iff_eq _ compare _ _ _).mp ?_
    rcases hcompare : compare (grantOrder allowing) (grantOrder asking) with _ | _ | _
    · exact absurd hcompare hleast
    · rfl
    · exact absurd (Std.OrientedCmp.gt_iff_lt.mp hcompare) hleast'
  have heffects : (allowing.effect != .approvalRequired) = (asking.effect != .approvalRequired) :=
    congrArg (fun k => k.2.2.1) heq
  rw [hallowing, hasking] at heffects
  cases heffects

end PolicyEngine

open PolicyEngine in
/-- **Tightening a context** makes the decision no less strict, unless an approval grant that decided makes way for an auto-allow
grant; and switching deny on never does that. -/
theorem tightening_loosens_iff (c c' : PolicyContext) (grants : List AutonomyGrant) (h : c.Tightened c')
    (ev ev' : PolicyEvaluation) (hev : evaluate c grants = .ok ev) (hev' : evaluate c' grants = .ok ev') :
    (ev.decision.strictness ≤ ev'.decision.strictness ↔ ¬ MakesWay grants c c') ∧
      (c' = c.withDeny → ev.decision.strictness ≤ ev'.decision.strictness) := by
  have hc : c.validateEvaluationInput = .ok () := by
    simp only [evaluate, bind_eq_ok, orFault_eq_ok] at hev
    exact hev.choose_spec.1
  have hiff : ev.decision.strictness ≤ ev'.decision.strictness ↔ ¬ MakesWay grants c c' := by
    rw [evaluate_strictness hev, evaluate_strictness hev']
    exact strictnessOf_le_iff h hc
  refine ⟨hiff, ?_⟩
  rintro rfl
  exact hiff.mpr (not_makesWay_withDeny hc)

namespace Sample

def mediumContext : PolicyContext :=
  { criticalContext with
    manifestRisk := .medium
    provenance := some
      { manifestId := "files.delete", manifestVersion := 1, manifestRisk := .medium, runId := 2#128
        logicalStepId := "step", logicalInvocationId := 3#128, canonicalArgumentDigest := 4#128 } }

/-- A grant that asks for an approval up to a medium risk, and one that allows at any risk. -/
def askingAndAllowing : List AutonomyGrant :=
  [{ approvalGrant .approvalRequired with id := "asking", maximumRisk := .medium }, approvalGrant .autoAllow]

end Sample

/-- Switching deny on leaves the medium call to the grant that asks. -/
theorem denied_medium_call_still_asks :
    ∃ ev ev', PolicyEngine.evaluate Sample.mediumContext Sample.askingAndAllowing = .ok ev ∧
      PolicyEngine.evaluate Sample.mediumContext.withDeny Sample.askingAndAllowing = .ok ev' ∧
      ev.decision.strictness ≤ ev'.decision.strictness := by
  have hreason : ∃ r, PolicyEngine.evaluate Sample.mediumContext Sample.askingAndAllowing =
      .ok ⟨.requireApproval r, none⟩ := ⟨⟨.approvalRequired, .medium, 1, some "asking", some 1⟩, by decide +kernel⟩
  have hreason' : ∃ r, PolicyEngine.evaluate Sample.mediumContext.withDeny Sample.askingAndAllowing =
      .ok ⟨.requireApproval r, none⟩ := ⟨⟨.approvalRequired, .medium, 1, some "asking", some 1⟩, by decide +kernel⟩
  obtain ⟨r, hev⟩ := hreason
  obtain ⟨r', hev'⟩ := hreason'
  exact ⟨_, _, hev, hev', (tightening_loosens_iff _ _ _ .denied _ _ hev hev').2 rfl⟩

/-- With a higher risk floor the call that asked for an approval is allowed. -/
theorem raised_floor_allows :
    ¬ ∀ (c c' : PolicyContext) (grants : List AutonomyGrant) (ev ev' : PolicyEvaluation), c.Tightened c' →
      PolicyEngine.evaluate c grants = .ok ev → PolicyEngine.evaluate c' grants = .ok ev' →
        ev.decision.strictness ≤ ev'.decision.strictness := by
  intro h
  have hraised : Sample.mediumContext.Tightened (Sample.mediumContext.withMinimumRisk .high) := .raised .high nofun
  have hle := h _ _ Sample.askingAndAllowing
    ⟨.requireApproval ⟨.approvalRequired, .medium, 1, some "asking", some 1⟩, none⟩
    ⟨.allow ⟨.allowedByGrant, .high, 1, some "grant", some 1⟩, some ⟨"grant", 1, 3#128⟩⟩ hraised
    (by decide +kernel) (by decide +kernel)
  exact absurd hle (by decide)

end AnimaCore
