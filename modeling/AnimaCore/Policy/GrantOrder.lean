import AnimaCore.Policy.Restrictions

/-!
# AnimaCore.Policy.GrantOrder — the order of the grants plays no part

`select_grant` takes the first grant with the least of a key of ten components, some of them reversed and some a default
for a missing value.

* `Narrower` is the documented order, without keys; `narrower_iff` connects it to the key.
-/

namespace AnimaCore.PolicyEngine

open Lib

/-! ## Narrowness -/

/-- The first criterion decides, unless it makes no difference. -/
def Decides (before same rest : Prop) : Prop := before ∨ same ∧ rest

/-- A finite value before a larger one and before none. -/
def Sooner {α : Type} [LT α] (a b : Option α) : Prop := ∃ x, a = some x ∧ ∀ y, b = some y → x < y

/-- The documented narrowness order: argument-bound scopes first, then lower risk ceilings, approval-required before
auto-allow, fewer remaining uses, earlier expiry, later start, and for residual ties the lesser identifier and the higher
revision. -/
def Narrower (g h : AutonomyGrant) : Prop :=
  Decides (g.scope.canonicalArgumentDigest.isSome ∧ h.scope.canonicalArgumentDigest = none)
    (g.scope.canonicalArgumentDigest.isSome ↔ h.scope.canonicalArgumentDigest.isSome) <|
  Decides (riskRank g.maximumRisk < riskRank h.maximumRisk) (riskRank g.maximumRisk = riskRank h.maximumRisk) <|
  Decides (g.effect = .approvalRequired ∧ h.effect = .autoAllow) (g.effect = h.effect) <|
  Decides (Sooner g.remainingUses h.remainingUses) (g.remainingUses = h.remainingUses) <|
  Decides (Sooner g.validUntilMs h.validUntilMs) (g.validUntilMs = h.validUntilMs) <|
  Decides (h.validFromMs < g.validFromMs) (g.validFromMs = h.validFromMs) <|
  Decides (g.id < h.id) (g.id = h.id) (h.revision < g.revision)

variable {c : PolicyContext} {grants grants' : List AutonomyGrant} {grant g h : AutonomyGrant}

theorem compare_pair_lt {α β : Type} [Ord α] [Ord β] {a a' : α} {b b' : β} :
    compare (a, b) (a', b') = .lt ↔ Decides (compare a a' = .lt) (compare a a' = .eq) (compare b b' = .lt) := by
  unfold Decides
  rw [show compare (a, b) (a', b') = (compare a a').then (compare b b') from rfl, Ordering.then_eq_lt]

theorem compare_bool_lt {a b : Bool} : compare a b = .lt ↔ a = false ∧ b = true := by
  cases a <;> cases b <;> decide

theorem compare_bool_eq {a b : Bool} : compare a b = .eq ↔ a = b := by
  cases a <;> cases b <;> decide

theorem optional_lt {α : Type} [Ord α] [LT α] {a b : Option α} {d : α} {rest : Prop}
    (hlt : ∀ x y : α, compare x y = .lt ↔ x < y) (heq : ∀ x y : α, compare x y = .eq ↔ x = y) :
    Decides (compare a.isNone b.isNone = .lt) (compare a.isNone b.isNone = .eq)
      (Decides (compare (a.getD d) (b.getD d) = .lt) (compare (a.getD d) (b.getD d) = .eq) rest) ↔
      Decides (Sooner a b) (a = b) rest := by
  unfold Decides Sooner
  rw [compare_bool_lt, compare_bool_eq, hlt, heq]
  rcases a with _ | x <;> rcases b with _ | y
  · have hirrefl : ¬ d < d := by
      rw [← hlt, (heq d d).mpr rfl]
      decide
    simp [hirrefl]
  · simp
  · simp
  · simp

theorem Decides.congr {before before' same same' rest rest' : Prop} (hbefore : before ↔ before') (hsame : same ↔ same')
    (hrest : rest ↔ rest') : Decides before same rest ↔ Decides before' same' rest' := by
  unfold Decides
  rw [hbefore, hsame, hrest]

theorem narrower_iff : compare (grantOrder g) (grantOrder h) = .lt ↔ Narrower g h := by
  unfold grantOrder Narrower
  rw [compare_pair_lt, compare_pair_lt, compare_pair_lt, compare_pair_lt, compare_pair_lt, compare_pair_lt,
    compare_pair_lt, compare_pair_lt, compare_pair_lt]
  rw [optional_lt (fun _ _ => Nat.compare_eq_lt) (fun _ _ => Nat.compare_eq_eq)]
  rw [optional_lt (fun _ _ => Int.compare_eq_lt) (fun _ _ => Int.compare_eq_eq)]
  refine Decides.congr ?_ ?_ (Decides.congr Nat.compare_eq_lt Nat.compare_eq_eq (Decides.congr ?_ ?_
    (Decides.congr Iff.rfl Iff.rfl (Decides.congr Iff.rfl Iff.rfl (Decides.congr ?_ ?_ (Decides.congr ?_ ?_ ?_))))))
  · rw [compare_bool_lt]
    cases g.scope.canonicalArgumentDigest <;> cases h.scope.canonicalArgumentDigest <;> simp
  · rw [compare_bool_eq]
    cases g.scope.canonicalArgumentDigest <;> cases h.scope.canonicalArgumentDigest <;> simp
  · rw [compare_bool_lt]
    cases g.effect <;> cases h.effect <;> decide
  · rw [compare_bool_eq]
    cases g.effect <;> cases h.effect <;> decide
  · rw [Int.compare_eq_lt]
    omega
  · rw [Int.compare_eq_eq]
    omega
  · exact compare_lt_iff_lt
  · exact Std.compare_eq_iff_eq
  · rw [Int.compare_eq_lt]
    omega

/-! ## Selection -/

def identity (g : AutonomyGrant) : String × ℕ := (g.id, g.revision)

theorem validateGrantSet_eq_ok : validateGrantSet grants = .ok () ↔ (grants.map identity).Nodup := ensure_eq_ok

theorem eq_of_identity (hset : validateGrantSet grants = .ok ()) (hg : g ∈ grants) (hh : h ∈ grants)
    (heq : identity g = identity h) : g = h :=
  List.inj_on_of_nodup_map (validateGrantSet_eq_ok.mp hset) hg hh heq

theorem narrower_total (hset : validateGrantSet grants = .ok ()) (hg : g ∈ grants) (hh : h ∈ grants) (hne : g ≠ h)
    (hnot : compare (grantOrder h) (grantOrder g) ≠ .lt) : Narrower g h := by
  rw [← narrower_iff]
  have hkeys : compare (grantOrder g) (grantOrder h) ≠ .eq := by
    intro heq
    have hkey := Std.compare_eq_iff_eq.mp heq
    simp only [grantOrder, Prod.mk.injEq] at hkey
    obtain ⟨_, _, _, _, _, _, _, _, hid, hrevision⟩ := hkey
    refine hne (eq_of_identity hset hg hh ?_)
    unfold identity
    rw [hid, show g.revision = h.revision by omega]
  rcases hcmp : compare (grantOrder g) (grantOrder h)
  · rfl
  · exact absurd hcmp hkeys
  · exact absurd (Std.OrientedCmp.gt_iff_lt.mp hcmp) hnot

theorem selectGrant_iff (hset : validateGrantSet grants = .ok ()) :
    selectGrant c grants = some g ↔ g ∈ grants ∧ grantMatches g c = true ∧
      ∀ h ∈ grants, grantMatches h c = true → h ≠ g → Narrower g h := by
  constructor
  · intro hsel
    obtain ⟨hg, hmatch⟩ := selectGrant_mem hsel
    refine ⟨hg, hmatch, fun h hh hhmatch hne => ?_⟩
    exact narrower_total hset hg hh hne.symm (selectGrant_least hsel hh hhmatch)
  · rintro ⟨hg, hmatch, hleast⟩
    cases hsel : selectGrant c grants with
    | none => exact absurd hmatch (selectGrant_eq_none hsel hg)
    | some b =>
      obtain ⟨hb, hbmatch⟩ := selectGrant_mem hsel
      by_contra hne
      have hne : b ≠ g := fun heq => hne (congrArg some heq)
      have hgb := hleast b hb hbmatch hne
      exact selectGrant_least hsel hg hmatch (narrower_iff.mpr hgb)

/-! ## Permutations -/

theorem validateGrantSet_perm (hperm : grants.Perm grants') : validateGrantSet grants = validateGrantSet grants' := by
  have hiff : (grants.map fun g => (g.id, g.revision)).Nodup ↔ (grants'.map fun g => (g.id, g.revision)).Nodup :=
    (hperm.map _).nodup_iff
  unfold validateGrantSet ensure
  simp only [hiff]

theorem selectGrant_perm (hperm : grants.Perm grants') (hset : validateGrantSet grants = .ok ()) :
    selectGrant c grants = selectGrant c grants' := by
  have hset' : validateGrantSet grants' = .ok () := by
    rw [← validateGrantSet_perm hperm]
    exact hset
  refine Option.ext fun g => ?_
  rw [selectGrant_iff hset, selectGrant_iff hset']
  simp only [hperm.mem_iff]

theorem find_iff (hset : validateGrantSet grants = .ok ()) {id : String} {revision : ℕ} :
    (grants.find? fun g => g.id == id && g.revision == revision) = some g ↔ g ∈ grants ∧ identity g = (id, revision) := by
  have hkey : ∀ g : AutonomyGrant, (g.id == id && g.revision == revision) = true ↔ identity g = (id, revision) := by
    intro g
    simp [identity]
  constructor
  · intro hfind
    have hfound := List.find?_some hfind
    exact ⟨List.mem_of_find?_eq_some hfind, (hkey g).mp hfound⟩
  · rintro ⟨hg, hid⟩
    cases hfind : grants.find? fun g => g.id == id && g.revision == revision with
    | none => exact absurd ((hkey g).mpr hid) (List.find?_eq_none.mp hfind g hg)
    | some b =>
      have hfound := List.find?_some hfind
      rw [eq_of_identity hset (List.mem_of_find?_eq_some hfind) hg (((hkey b).mp hfound).trans hid.symm)]

theorem validatedGrantByIdentity_perm (hperm : grants.Perm grants') (id : String) (revision : ℕ) :
    validatedGrantByIdentity grants id revision = validatedGrantByIdentity grants' id revision := by
  unfold validatedGrantByIdentity
  have hsame := validateGrantSet_perm hperm
  rw [← hsame]
  cases hset : validateGrantSet grants with
  | error e => rfl
  | ok u =>
    have hset' : validateGrantSet grants' = .ok () := hsame.symm.trans hset
    have hfind : (grants.find? fun g => g.id == id && g.revision == revision) =
        grants'.find? fun g => g.id == id && g.revision == revision := by
      refine Option.ext fun g => ?_
      rw [find_iff hset, find_iff hset', hperm.mem_iff]
    rw [hfind]

theorem validateApprovalBinding_perm (hperm : grants.Perm grants') (approval : ApprovalDecision) :
    validateApprovalBinding approval c grants = validateApprovalBinding approval c grants' := by
  unfold validateApprovalBinding
  simp only [validateGrantSet_perm hperm, validatedGrantByIdentity_perm hperm]

theorem evaluate_perm (hperm : grants.Perm grants') : evaluate c grants = evaluate c grants' := by
  unfold evaluate
  rw [← validateGrantSet_perm hperm]
  cases hset : validateGrantSet grants with
  | error e => rfl
  | ok u => rw [selectGrant_perm hperm hset]

theorem evaluateWithApproval_perm (hperm : grants.Perm grants') (approval : Option ApprovalDecision) :
    evaluateWithApproval c grants approval = evaluateWithApproval c grants' approval := by
  have hvalid : ∀ a, validateApprovalWithGrants a c grants = validateApprovalWithGrants a c grants' := by
    intro a
    unfold validateApprovalWithGrants
    rw [validateApprovalBinding_perm hperm]
  unfold evaluateWithApproval
  simp only [evaluate_perm hperm, hvalid, validatedGrantByIdentity_perm hperm]

/-! ## The `expect` of `reason` -/

/-- The codes that name a grant have one, those of a default have none, and those of an approval may have one. -/
def NamesGrant (code : PolicyReasonCode) (grant : Option AutonomyGrant) : Prop :=
  match code with
  | .allowedByGrant | .allowedByExactGrantOverride => grant.isSome
  | .allowedByDefault | .deniedByDefault | .deniedByRestriction => grant = none
  | .approvalRequired | .allowedByApproval => True

theorem reason_ok {code : PolicyReasonCode} {grant : Option AutonomyGrant} (hc : c.validateEvaluationInput = .ok ())
    (hgrant : ∀ g, grant = some g → g.validate = .ok ()) (hcode : NamesGrant code grant) :
    ∃ r, reason code c.effectiveRisk c.policyRevision grant = .ok r := by
  let r : PolicyReason := { code, effectiveRisk := c.effectiveRisk, policyRevision := c.policyRevision
                            grantId := grant.map (·.id), grantRevision := grant.map (·.revision) }
  have hhas : r.hasGrant = .ok grant.isSome := by
    cases grant with
    | none => rfl
    | some g =>
      obtain ⟨hid, hrev⟩ := grant_validate_id (hgrant g rfl)
      simp only [r, PolicyReason.hasGrant, Option.map_some, if_pos hrev, bind_eq_ok]
      exact ⟨(), hid, rfl⟩
  have hvalid : r.validate = .ok () := by
    simp only [PolicyReason.validate, bind_eq_ok, ensure_eq_ok]
    refine ⟨(), effectiveRisk_ne_none hc, _, hhas, ?_⟩
    unfold NamesGrant at hcode
    cases code <;> simp_all [r, ensure]
  refine ⟨r, ?_⟩
  unfold reason
  dsimp only
  rw [show PolicyReason.validate _ = .ok () from hvalid]

theorem orFault_ne_panicked {α : Type} (r : PolicyResult α) : r.orFault ≠ .error .panicked := by
  cases r <;> simp [PolicyResult.orFault]

theorem reason_ne_panicked (code : PolicyReasonCode) {grant : Option AutonomyGrant}
    (hc : c.validateEvaluationInput = .ok ()) (hgrant : ∀ g, grant = some g → g.validate = .ok ())
    (hcode : NamesGrant code grant) : reason code c.effectiveRisk c.policyRevision grant ≠ .error .panicked := by
  obtain ⟨r, hr⟩ := reason_ok hc hgrant hcode
  rw [hr]
  simp

theorem defaultDecision_ne_panicked (hc : c.validateEvaluationInput = .ok ()) :
    defaultDecision c ≠ .error .panicked := by
  have hnone : ∀ g, (none : Option AutonomyGrant) = some g → g.validate = .ok () := by
    intro g hg
    cases hg
  have hmap : ∀ (code : PolicyReasonCode) (f : PolicyReason → PolicyDecision), NamesGrant code none →
      f <$> reason code c.effectiveRisk c.policyRevision none ≠ .error .panicked := by
    intro code f hcode
    obtain ⟨r, hr⟩ := reason_ok hc hnone hcode
    rw [hr]
    simp [Functor.map, Except.map]
  unfold defaultDecision
  dsimp only
  split_ifs
  · exact hmap _ _ rfl
  · exact hmap _ _ rfl
  · exact hmap _ _ trivial
  · exact hmap _ _ rfl

theorem evaluateDefault_ne_panicked (hc : c.validateEvaluationInput = .ok ()) :
    evaluateDefault c ≠ .error .panicked := by
  unfold evaluateDefault
  intro h
  rcases bind_eq_error.mp h with h | ⟨_, _, h⟩
  · exact defaultDecision_ne_panicked hc h
  · exact orFault_ne_panicked _ h

theorem evaluate_ne_panicked (c : PolicyContext) (grants : List AutonomyGrant) :
    evaluate c grants ≠ .error .panicked := by
  unfold evaluate
  intro h
  rcases bind_eq_error.mp h with h | ⟨_, hc, h⟩
  · exact orFault_ne_panicked _ h
  have hc := orFault_eq_ok.mp hc
  rcases bind_eq_error.mp h with h | ⟨_, _, h⟩
  · exact orFault_ne_panicked _ h
  cases hsel : selectGrant c grants with
  | none =>
    rw [hsel] at h
    exact evaluateDefault_ne_panicked hc h
  | some grant =>
    have hgrant : ∀ g, some grant = some g → g.validate = .ok () := by
      intro g hg
      cases hg
      exact (grantMatches_valid (selectGrant_mem hsel).2).2
    rw [hsel] at h
    dsimp only at h
    split_ifs at h with hask hallow hexact
    · rcases bind_eq_error.mp h with h | ⟨_, _, h⟩
      · exact reason_ne_panicked .approvalRequired hc hgrant trivial h
      · exact orFault_ne_panicked _ h
    · rcases bind_eq_error.mp h with h | ⟨_, _, h⟩
      · exact reason_ne_panicked .allowedByExactGrantOverride hc hgrant rfl h
      rcases bind_eq_error.mp h with h | ⟨_, _, h⟩
      · exact orFault_ne_panicked _ h
      · exact orFault_ne_panicked _ h
    · rcases bind_eq_error.mp h with h | ⟨_, _, h⟩
      · exact reason_ne_panicked .allowedByGrant hc hgrant rfl h
      rcases bind_eq_error.mp h with h | ⟨_, _, h⟩
      · exact orFault_ne_panicked _ h
      · exact orFault_ne_panicked _ h
    · exact evaluateDefault_ne_panicked hc h

theorem allowByApproval_ne_panicked (grant : Option AutonomyGrant) (hc : c.validateEvaluationInput = .ok ())
    (hgrant : ∀ g, grant = some g → g.validate = .ok ()) : allowByApproval c grant ≠ .error .panicked := by
  have hreason := reason_ne_panicked .allowedByApproval hc hgrant trivial
  unfold allowByApproval
  intro h
  cases grant with
  | none =>
    rcases bind_eq_error.mp h with h | ⟨_, _, h⟩
    · cases h
    rcases bind_eq_error.mp h with h | ⟨_, _, h⟩
    · exact hreason h
    · exact orFault_ne_panicked _ h
  | some g =>
    rcases bind_eq_error.mp h with h | ⟨_, _, h⟩
    · exact orFault_ne_panicked _ h
    rcases bind_eq_error.mp h with h | ⟨_, _, h⟩
    · exact hreason h
    · exact orFault_ne_panicked _ h

theorem evaluate_validates {ev : PolicyEvaluation} (h : evaluate c grants = .ok ev) :
    c.validateEvaluationInput = .ok () := by
  simp only [evaluate, bind_eq_ok, orFault_eq_ok] at h
  obtain ⟨_, hc, _⟩ := h
  exact hc

theorem evaluateWithApproval_ne_panicked (c : PolicyContext) (grants : List AutonomyGrant)
    (approval : Option ApprovalDecision) : evaluateWithApproval c grants approval ≠ .error .panicked := by
  unfold evaluateWithApproval
  intro h
  rcases bind_eq_error.mp h with h | ⟨initial, hinitial, h⟩
  · exact evaluate_ne_panicked c grants h
  have hc := evaluate_validates hinitial
  split at h
  · next a _ =>
    split_ifs at h with hvalid
    · obtain ⟨_, _, hnamed⟩ := valid_binding hvalid
      rcases hnamed with ⟨hid, hrevision⟩ | ⟨id, revision, grant, hid, hrevision, hfound, hmatch⟩
      · rw [hid, hrevision] at h
        refine allowByApproval_ne_panicked none hc (fun g hg => ?_) h
        cases hg
      · rw [hid, hrevision] at h
        dsimp only at h
        rw [hfound] at h
        refine allowByApproval_ne_panicked (some grant) hc (fun g hg => ?_) h
        cases hg
        exact (grantMatches_valid hmatch).2
    · cases h
  · cases h

theorem approvalRequest_ne_panicked (c : PolicyContext) (grant : Option AutonomyGrant) :
    approvalRequest c grant ≠ .error .panicked := by
  unfold approvalRequest
  intro h
  rcases bind_eq_error.mp h with h | ⟨_, hc, h⟩
  · exact orFault_ne_panicked _ h
  rcases bind_eq_error.mp h with h | ⟨_, hmatch, h⟩
  · exact orFault_ne_panicked _ h
  have hc := orFault_eq_ok.mp hc
  have hmatch := ensure_eq_ok.mp (orFault_eq_ok.mp hmatch)
  have hgrant : ∀ g, grant = some g → g.validate = .ok () := by
    rintro g rfl
    exact (grantMatches_valid (by simpa using hmatch)).2
  rcases bind_eq_error.mp h with h | ⟨_, _, h⟩
  · exact evaluate_ne_panicked c grant.toList h
  split at h
  · rcases bind_eq_error.mp h with h | ⟨_, _, h⟩
    · exact orFault_ne_panicked _ h
    rcases bind_eq_error.mp h with h | ⟨_, _, h⟩
    · exact reason_ne_panicked .approvalRequired hc hgrant trivial h
    rcases bind_eq_error.mp h with h | ⟨_, _, h⟩
    · exact orFault_ne_panicked _ h
    · cases h
  · cases h

/-- **The order of the grants does not matter and the engine does not panic.**  Two orders of the same grants evaluate
alike, with an approval or without, errors and consumptions included; among grants with distinct identities the selected
one is the unique narrowest that matches; and no call reaches the failure of `reason`. -/
theorem grant_order_irrelevant (c : PolicyContext) (approval : Option ApprovalDecision)
    (grants grants' : List AutonomyGrant) (hperm : grants.Perm grants') :
    evaluate c grants = evaluate c grants' ∧
      evaluateWithApproval c grants approval = evaluateWithApproval c grants' approval ∧
      (validateGrantSet grants = .ok () → ∀ g, selectGrant c grants = some g ↔
        g ∈ grants ∧ grantMatches g c = true ∧ ∀ h ∈ grants, grantMatches h c = true → h ≠ g → Narrower g h) ∧
      evaluate c grants ≠ .error .panicked ∧ evaluateWithApproval c grants approval ≠ .error .panicked ∧
      ∀ grant, approvalRequest c grant ≠ .error .panicked :=
  ⟨evaluate_perm hperm, evaluateWithApproval_perm hperm approval, fun hset _ => selectGrant_iff hset,
    evaluate_ne_panicked c grants, evaluateWithApproval_ne_panicked c grants approval, approvalRequest_ne_panicked c⟩

/-- Of a grant that asks and one that allows, the one with the lower ceiling is selected in both orders. -/
theorem reversed_grants_ask :
    evaluate Sample.mediumContext Sample.askingAndAllowing =
        evaluate Sample.mediumContext Sample.askingAndAllowing.reverse ∧
      (selectGrant Sample.mediumContext Sample.askingAndAllowing).map (·.id) = some "asking" := by
  obtain ⟨hsame, _⟩ := grant_order_irrelevant Sample.mediumContext none Sample.askingAndAllowing
    Sample.askingAndAllowing.reverse (List.reverse_perm _).symm
  exact ⟨hsame, by decide +kernel⟩

end AnimaCore.PolicyEngine
