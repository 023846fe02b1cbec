import AnimaCore.ExecutionLimits.Settlement

/-!
# AnimaCore.ExecutionLimits.ExactAdmission — when a fresh reservation is granted

`reserve` checks the charged amounts through `Budget::evaluate`, which takes a general `Usage` and first asks that its
total is the sum of its input and output.  What is charged is a maximum over the reports, so its total may be larger.

* `chargedInput`, `chargedOutput`, `chargedTotal`: the charge of a reservation as sums and maxima without overflow;
  `charge_eq` and `consumption_charged` say that the source computes these.
* `Fits`: a scope keeps its counts and charges within every maximum.
* `SumsUp`: no recorded report states a total above the input and output that its reservation is charged for.
-/

namespace AnimaCore

open Lib

/-! ## Charges without overflow -/

/-- The input side of `normalized_tokens`. -/
def TokenUsage.inputSide (u : TokenUsage) : ℕ := max u.promptTokens u.cachedPromptTokens

/-- The output side of `normalized_tokens`. -/
def TokenUsage.outputSide (u : TokenUsage) : ℕ := max u.completionTokens u.reasoningTokens

namespace ExecutionReservation

def settledUsage (r : ExecutionReservation) : Option TokenUsage := r.outcome.bind (·.usage)

/-- One side of the charge by the outcome; an outcome that is not final never falls below what was reserved. -/
def settledSide (r : ExecutionReservation) (reserved : ℕ) (side : TokenUsage → ℕ) : ℕ :=
  match r.outcome with
  | some .provenNeverSent => 0
  | some (.known usage) => side usage
  | some (.unknown (some observed)) => max (side observed) reserved
  | _ => reserved

def chargedSide (r : ExecutionReservation) (reserved : ℕ) (side : TokenUsage → ℕ) : ℕ :=
  max (r.settledSide reserved side) (r.observedUsage.elim 0 side)

def chargedInput (r : ExecutionReservation) : ℕ := r.chargedSide r.request.inputTokens (·.inputSide)

def chargedOutput (r : ExecutionReservation) : ℕ := r.chargedSide r.request.outputTokens (·.outputSide)

def statedTotal (r : ExecutionReservation) : ℕ :=
  max (r.settledUsage.elim 0 (·.totalTokens)) (r.observedUsage.elim 0 (·.totalTokens))

def chargedTotal (r : ExecutionReservation) : ℕ := max r.statedTotal (r.chargedInput + r.chargedOutput)

/-- No report states a total above the charged input and output. -/
def SumsUp (r : ExecutionReservation) : Prop := r.statedTotal ≤ r.chargedInput + r.chargedOutput

end ExecutionReservation

theorem addTokens_eq {a b : ℕ} (h : a + b < 2 ^ 64) : addTokens a b = .ok (a + b) := by
  unfold addTokens
  rw [okOr_eq_ok, checkedAdd_eq_some]
  exact ⟨h, rfl⟩

theorem normalizedTokens_eq {u : TokenUsage} (h : u.inputSide + u.outputSide < 2 ^ 64) :
    normalizedTokens u = .ok ⟨u.inputSide, u.outputSide, max u.totalTokens (u.inputSide + u.outputSide)⟩ := by
  unfold normalizedTokens
  rw [bind_eq_ok]
  exact ⟨u.inputSide + u.outputSide, addTokens_eq h, rfl⟩

variable {r : ExecutionReservation}

theorem settledCharge_eq (hreq : r.request.inputTokens + r.request.outputTokens < 2 ^ 64)
    (h : r.settledSide r.request.inputTokens (·.inputSide) + r.settledSide r.request.outputTokens (·.outputSide)
      < 2 ^ 64) :
    r.settledCharge = .ok
      { input := r.settledSide r.request.inputTokens (·.inputSide)
        output := r.settledSide r.request.outputTokens (·.outputSide)
        total := max (r.settledUsage.elim 0 (·.totalTokens))
          (r.settledSide r.request.inputTokens (·.inputSide) + r.settledSide r.request.outputTokens (·.outputSide)) } := by
  unfold ExecutionReservation.settledCharge
  rw [bind_eq_ok]
  refine ⟨_, addTokens_eq hreq, ?_⟩
  unfold ExecutionReservation.settledSide at h ⊢
  unfold ExecutionReservation.settledUsage
  rcases ho : r.outcome with _ | (known | (_ | observed) | _)
  · simp [pure, Except.pure]
  · rw [ho] at h
    simpa [SettlementOutcome.usage] using normalizedTokens_eq h
  · simp [SettlementOutcome.usage, pure, Except.pure]
  · simp only [ho] at h
    have hseen : normalizedTokens observed = .ok ⟨observed.inputSide, observed.outputSide,
        max observed.totalTokens (observed.inputSide + observed.outputSide)⟩ := normalizedTokens_eq (by omega)
    simp only [bind_eq_ok]
    refine ⟨_, hseen, _, addTokens_eq h, ?_⟩
    have htotal : max (max (max observed.totalTokens (observed.inputSide + observed.outputSide))
        (r.request.inputTokens + r.request.outputTokens))
        (max observed.inputSide r.request.inputTokens + max observed.outputSide r.request.outputTokens) =
        max observed.totalTokens
          (max observed.inputSide r.request.inputTokens + max observed.outputSide r.request.outputTokens) := by omega
    rw [htotal]
    rfl
  · simp [SettlementOutcome.usage, pure, Except.pure]

theorem charge_eq (hreq : r.request.inputTokens + r.request.outputTokens < 2 ^ 64)
    (h : r.chargedInput + r.chargedOutput < 2 ^ 64) :
    r.charge = .ok ⟨r.chargedInput, r.chargedOutput, r.chargedTotal⟩ := by
  unfold ExecutionReservation.chargedTotal ExecutionReservation.statedTotal
  unfold ExecutionReservation.chargedInput ExecutionReservation.chargedOutput at *
  unfold ExecutionReservation.chargedSide at *
  unfold ExecutionReservation.charge
  rw [bind_eq_ok]
  refine ⟨_, settledCharge_eq hreq (by omega), ?_⟩
  cases hobs : r.observedUsage with
  | none => simp [pure, Except.pure]
  | some observed =>
    rw [hobs] at h
    simp only [Option.elim_some] at h ⊢
    simp only [bind_eq_ok]
    refine ⟨_, normalizedTokens_eq (by omega), _, addTokens_eq h, ?_⟩
    dsimp only
    refine congrArg Except.ok (congrArg (Charge.mk _ _) ?_)
    omega

theorem settledCharge_spec {c : Charge} (h : r.settledCharge = .ok c) :
    c.input = r.settledSide r.request.inputTokens (·.inputSide) ∧
      c.output = r.settledSide r.request.outputTokens (·.outputSide) ∧ c.input + c.output < 2 ^ 64 ∧
      r.request.inputTokens + r.request.outputTokens < 2 ^ 64 := by
  unfold ExecutionReservation.settledCharge at h
  simp only [addTokens, bind_eq_ok, okOr_eq_ok, checkedAdd_eq_some] at h
  obtain ⟨_, ⟨hreserved, rfl⟩, h⟩ := h
  unfold ExecutionReservation.settledSide
  rcases ho : r.outcome with _ | (known | (_ | observed) | _)
  · rw [ho] at h
    cases h
    exact ⟨rfl, rfl, hreserved, hreserved⟩
  · simp only [ho, normalizedTokens, addTokens, bind_eq_ok, okOr_eq_ok, checkedAdd_eq_some] at h
    obtain ⟨_, ⟨hsum, rfl⟩, hout⟩ := h
    cases hout
    exact ⟨rfl, rfl, hsum, hreserved⟩
  · rw [ho] at h
    cases h
    exact ⟨rfl, rfl, hreserved, hreserved⟩
  · simp only [ho, normalizedTokens, addTokens, bind_eq_ok, okOr_eq_ok, checkedAdd_eq_some] at h
    obtain ⟨_, ⟨_, _, hseen⟩, _, ⟨hsum, rfl⟩, hout⟩ := h
    cases hseen
    cases hout
    exact ⟨rfl, rfl, hsum, hreserved⟩
  · rw [ho] at h
    cases h
    exact ⟨rfl, rfl, by decide, hreserved⟩

theorem charge_spec {c : Charge} (h : r.charge = .ok c) : c = ⟨r.chargedInput, r.chargedOutput, r.chargedTotal⟩ := by
  have hfits : r.chargedInput + r.chargedOutput < 2 ^ 64 ∧ r.request.inputTokens + r.request.outputTokens < 2 ^ 64 := by
    unfold ExecutionReservation.chargedInput ExecutionReservation.chargedOutput ExecutionReservation.chargedSide
    simp only [ExecutionReservation.charge, bind_eq_ok] at h
    obtain ⟨base, hbase, h⟩ := h
    obtain ⟨hin, hout, hsum, hreserved⟩ := settledCharge_spec hbase
    rw [← hin, ← hout]
    refine ⟨?_, hreserved⟩
    cases hobs : r.observedUsage with
    | none => simpa using hsum
    | some observed =>
      simp only [hobs, normalizedTokens, addTokens, bind_eq_ok, okOr_eq_ok, checkedAdd_eq_some] at h
      obtain ⟨_, ⟨_, _, hseen⟩, _, ⟨hsum, _⟩, _⟩ := h
      cases hseen
      exact hsum
  rw [charge_eq hfits.2 hfits.1] at h
  exact (Except.ok.inj h).symm

/-! ## The consumption loop -/

namespace ExecutionReservation

theorem sides_le_total (r : ExecutionReservation) : r.chargedInput + r.chargedOutput ≤ r.chargedTotal := le_max_right _ _

theorem known_le {known : TokenUsage} (h : r.outcome = some (.known known)) :
    known.inputSide ≤ r.chargedInput ∧ known.outputSide ≤ r.chargedOutput ∧ known.totalTokens ≤ r.chargedTotal := by
  unfold chargedTotal statedTotal chargedInput chargedOutput chargedSide settledSide settledUsage
  rw [h]
  show _ ≤ max known.inputSide _ ∧ _ ≤ max known.outputSide _ ∧ _ ≤ max (max known.totalTokens _) _
  omega

end ExecutionReservation

theorem addKnown_total (known : Usage) (r : ExecutionReservation) (h : known.inputTokens + r.chargedInput < 2 ^ 64)
    (h' : known.outputTokens + r.chargedOutput < 2 ^ 64) (h'' : known.totalTokens + r.chargedTotal < 2 ^ 64) :
    ∃ known', addKnown known r = .ok known' ∧ known'.inputTokens ≤ known.inputTokens + r.chargedInput ∧
      known'.outputTokens ≤ known.outputTokens + r.chargedOutput ∧
      known'.totalTokens ≤ known.totalTokens + r.chargedTotal := by
  have hsides := r.sides_le_total
  unfold addKnown
  rcases ho : r.outcome with _ | (usage | observed | _)
  · exact ⟨known, rfl, by omega, by omega, by omega⟩
  · obtain ⟨hin, hout, htot⟩ := ExecutionReservation.known_le ho
    simp only [bind_eq_ok]
    refine ⟨_, ⟨_, normalizedTokens_eq (by omega), _, addTokens_eq (by dsimp only; omega), _,
      addTokens_eq (by dsimp only; omega), _, addTokens_eq (by dsimp only; omega), rfl⟩, ?_, ?_, ?_⟩
    · dsimp only
      omega
    · dsimp only
      omega
    · dsimp only
      omega
  · exact ⟨known, rfl, by omega, by omega, by omega⟩
  · exact ⟨known, rfl, by omega, by omega, by omega⟩

/-- What the loop has charged for the reservations it has read. -/
structure ChargedUpTo (rs : List ExecutionReservation) (acc : ExecutionConsumption × Finset String) : Prop where
  input : acc.1.chargedInputTokens = (rs.map (·.chargedInput)).sum
  output : acc.1.chargedOutputTokens = (rs.map (·.chargedOutput)).sum
  total : acc.1.chargedTotalTokens = (rs.map (·.chargedTotal)).sum
  knownInput : acc.1.known.inputTokens ≤ (rs.map (·.chargedInput)).sum
  knownOutput : acc.1.known.outputTokens ≤ (rs.map (·.chargedOutput)).sum
  knownTotal : acc.1.known.totalTokens ≤ (rs.map (·.chargedTotal)).sum

theorem sums_le_total (rs : List ExecutionReservation) :
    (rs.map (·.chargedInput)).sum + (rs.map (·.chargedOutput)).sum ≤ (rs.map (·.chargedTotal)).sum := by
  induction rs with
  | nil => simp
  | cons r rs ih =>
    have := r.sides_le_total
    simp only [List.map_cons, List.sum_cons]
    omega

theorem sum_concat (f : ExecutionReservation → ℕ) (rs : List ExecutionReservation) (r : ExecutionReservation) :
    ((rs ++ [r]).map f).sum = (rs.map f).sum + f r := by
  simp

theorem add_chargedUpTo {rs : List ExecutionReservation} {acc : ExecutionConsumption × Finset String}
    (h : ChargedUpTo rs acc) (hreq : r.request.inputTokens + r.request.outputTokens < 2 ^ 64)
    (hfits : ((rs ++ [r]).map (·.chargedTotal)).sum < 2 ^ 64) :
    ∃ acc', ExecutionConsumption.add acc r = .ok acc' ∧ ChargedUpTo (rs ++ [r]) acc' := by
  have hsides := r.sides_le_total
  have hsums := sums_le_total rs
  rw [sum_concat] at hfits
  obtain ⟨hin, hout, htot, hkin, hkout, hktot⟩ := h
  obtain ⟨known, hknown, hkin', hkout', hktot'⟩ := addKnown_total acc.1.known r (by omega) (by omega)
    (by omega)
  unfold ExecutionConsumption.add
  simp only [bind_eq_ok]
  refine ⟨_, ⟨known, hknown, _, charge_eq hreq (by omega), _, addTokens_eq (by dsimp only; omega), _,
    addTokens_eq (by dsimp only; omega), _, addTokens_eq (by dsimp only; omega), rfl⟩, ?_⟩
  constructor
  all_goals
    rw [sum_concat]
    dsimp only
    omega

namespace ExecutionScope

variable {s : ExecutionScope} {request : ReservationRequest} {nowMs : ℕ}

def chargedInput (s : ExecutionScope) : ℕ := (s.values.map (·.chargedInput)).sum

def chargedOutput (s : ExecutionScope) : ℕ := (s.values.map (·.chargedOutput)).sum

def chargedTotal (s : ExecutionScope) : ℕ := (s.values.map (·.chargedTotal)).sum

def SumsUp (s : ExecutionScope) : Prop := ∀ r ∈ s.values, r.SumsUp

theorem sumsUp_iff (s : ExecutionScope) : s.SumsUp ↔ s.chargedTotal = s.chargedInput + s.chargedOutput := by
  unfold SumsUp chargedTotal chargedInput chargedOutput
  induction s.values with
  | nil => simp
  | cons r rs ih =>
    have hr : r.SumsUp ↔ r.chargedTotal = r.chargedInput + r.chargedOutput := by
      unfold ExecutionReservation.SumsUp ExecutionReservation.chargedTotal
      omega
    have hsides := r.sides_le_total
    have hsums := sums_le_total rs
    simp only [List.forall_mem_cons, List.map_cons, List.sum_cons, ih, hr]
    omega

theorem validate_entry (hv : s.validate = .ok ()) (hr : r ∈ s.values) : r.request.validate = .ok () := by
  simp only [ExecutionScope.validate, bind_eq_ok] at hv
  obtain ⟨_, _, _, _, _, _, _, _, _, _, _, _, hentries⟩ := hv
  obtain ⟨entry, hentry, rfl⟩ := List.mem_map.mp hr
  have := forM_eq_ok.mp hentries entry hentry
  simp only [validateReservation, bind_eq_ok] at this
  obtain ⟨_, hreq, _⟩ := this
  exact hreq

theorem request_tokens (h : request.validate = .ok ()) : request.inputTokens + request.outputTokens < 2 ^ 64 := by
  simp only [ReservationRequest.validate, bind_eq_ok, okOr_eq_ok, checkedAdd_eq_some] at h
  obtain ⟨_, _, _, _, _, _, _, _, _, ⟨hlt, _⟩, _⟩ := h
  exact hlt

theorem consumption_total (hv : s.validate = .ok ()) (h : s.chargedTotal < 2 ^ 64) :
    ∃ usage, s.consumption = .ok usage := by
  have hloop : ∃ acc, s.values.foldlM ExecutionConsumption.add ({}, ∅) = .ok acc ∧ ChargedUpTo s.values acc := by
    refine foldlM_total ⟨rfl, rfl, rfl, le_rfl, le_rfl, le_rfl⟩ ?_
    intro pre r post acc hl hacc
    refine add_chargedUpTo hacc (request_tokens (validate_entry hv (by rw [hl]; simp))) ?_
    unfold chargedTotal at h
    rw [hl, List.append_cons, List.map_append, List.sum_append] at h
    omega
  obtain ⟨acc, hacc, _⟩ := hloop
  have hcounted := loop_counted hacc
  have hle : acc.2.card ≤ acc.1.modelAttempts := by
    rw [hcounted.attempts, hcounted.logical]
    exact logicalCalls_card_le _
  unfold consumption
  simp only [bind_eq_ok]
  exact ⟨_, (), hv, acc, hacc, (), ensure_eq_ok.mpr hle, rfl⟩

theorem consumption_charged {usage : ExecutionConsumption} (h : s.consumption = .ok usage) :
    usage.chargedInputTokens = s.chargedInput ∧ usage.chargedOutputTokens = s.chargedOutput ∧
      usage.chargedTotalTokens = s.chargedTotal ∧ usage.logicalModelCalls = s.logicalModelCalls := by
  simp only [consumption, bind_eq_ok] at h
  obtain ⟨_, _, acc, hloop, _, _, hout⟩ := h
  cases hout
  have hsums : acc.1.chargedInputTokens = s.chargedInput ∧ acc.1.chargedOutputTokens = s.chargedOutput ∧
      acc.1.chargedTotalTokens = s.chargedTotal := by
    refine foldlM_induction (P := fun rs (acc : ExecutionConsumption × Finset String) =>
      acc.1.chargedInputTokens = (rs.map (·.chargedInput)).sum ∧ acc.1.chargedOutputTokens = (rs.map (·.chargedOutput)).sum ∧
        acc.1.chargedTotalTokens = (rs.map (·.chargedTotal)).sum) hloop ⟨rfl, rfl, rfl⟩ ?_
    rintro pre r post acc acc' - ⟨hin, hout, htot⟩ hadd
    simp only [ExecutionConsumption.add, addTokens, bind_eq_ok, okOr_eq_ok, checkedAdd_eq_some] at hadd
    obtain ⟨_, _, c, hc, _, ⟨_, rfl⟩, _, ⟨_, rfl⟩, _, ⟨_, rfl⟩, hout'⟩ := hadd
    cases hout'
    rw [charge_spec hc, sum_concat, sum_concat, sum_concat, ← hin, ← hout, ← htot]
    exact ⟨rfl, rfl, rfl⟩
  exact ⟨hsums.1, hsums.2.1, hsums.2.2, congrArg Finset.card (loop_counted hloop).logical⟩

end ExecutionScope

/-- No used amount has reached the approval threshold of its maximum. -/
def Budget.BelowApproval (b : Budget) (u : Usage) : Prop :=
  ∀ percent, b.requireApprovalAtPercent = some percent → ∀ p ∈ b.pairs u, ∀ m, p.2 = some m → p.1 * 100 < m * percent

theorem Budget.belowApproval_of_none {b : Budget} (hnone : b.requireApprovalAtPercent = none) (u : Usage) :
    b.BelowApproval u := by
  intro percent h
  rw [hnone] at h
  cases h

theorem any_pair_iff (pairs : List (ℕ × Option ℕ)) (R : ℕ → ℕ → Prop) [DecidableRel R] :
    (pairs.any fun p => p.2.any fun m => decide (R p.1 m)) = true ↔ ∃ p ∈ pairs, ∃ m, p.2 = some m ∧ R p.1 m := by
  simp only [List.any_eq_true, Option.any_eq_true, decide_eq_true_eq]

theorem evaluate_eq_continue_iff {b : Budget} {u : Usage} (hb : b.validate = .ok ()) :
    b.evaluate u = .ok .continue_ ↔
      u.validate = .ok () ∧ (∀ p ∈ b.pairs u, ∀ m, p.2 = some m → p.1 ≤ m) ∧ b.BelowApproval u := by
  have hmax := any_pair_iff (b.pairs u) (fun used m => m < used)
  constructor
  · intro h
    have hle := ExecutionScope.evaluate_continue h
    simp only [Budget.evaluate, bind_eq_ok] at h
    obtain ⟨_, _, _, hu, h⟩ := h
    refine ⟨hu, hle, fun percent hpercent => ?_⟩
    have happroval := any_pair_iff (b.pairs u) (fun used m => m * percent ≤ used * 100)
    by_contra hreached
    push Not at hreached
    rw [hpercent] at h
    split_ifs at h with h1 h2
    · cases h
    · cases h
    · exact h2 (happroval.mpr hreached)
  · rintro ⟨hu, hle, hbelow⟩
    simp only [Budget.evaluate, bind_eq_ok]
    refine ⟨(), hb, (), hu, ?_⟩
    have hnot : ¬ ((b.pairs u).any fun p => p.2.any fun m => decide (m < p.1)) = true := by
      rw [hmax]
      rintro ⟨p, hp, m, hm, hlt⟩
      have := hle p hp m hm
      omega
    rw [if_neg hnot]
    cases hpercent : b.requireApprovalAtPercent with
    | none => rfl
    | some percent =>
      have happroval := any_pair_iff (b.pairs u) (fun used m => m * percent ≤ used * 100)
      have hnot : ¬ ((b.pairs u).any fun p => p.2.any fun m => decide (m * percent ≤ p.1 * 100)) = true := by
        rw [happroval]
        rintro ⟨p, hp, m, hm, hreached⟩
        have := hbelow percent hpercent p hp m hm
        omega
      rw [Option.any_some, if_neg hnot]
      rfl

namespace ExecutionScope

variable {s : ExecutionScope} {request : ReservationRequest} {nowMs : ℕ}

/-- A scope keeps its counts within its limits and every charged amount within its maximum. -/
structure Fits (s : ExecutionScope) (nowMs : ℕ) : Prop where
  operations : s.WithinLimits
  wallTime : ∀ m, s.limits.budget.maxWallTimeMs = some m → nowMs - s.createdAtMs ≤ m
  logicalCalls : ∀ m, s.limits.budget.maxTurns = some m → s.logicalModelCalls ≤ m
  toolCalls : ∀ m, s.limits.budget.maxCapabilitySteps = some m → s.toolCalls ≤ m
  input : ∀ m, s.limits.budget.maxInputTokens = some m → s.chargedInput ≤ m
  output : ∀ m, s.limits.budget.maxOutputTokens = some m → s.chargedOutput ≤ m
  total : ∀ m, s.limits.budget.maxTotalTokens = some m → s.chargedTotal ≤ m

/-- The operations in flight are within the concurrent runs of the budget. -/
def ConcurrentRunsFit (s : ExecutionScope) : Prop :=
  ∀ m, s.limits.budget.maxConcurrentRuns = some m → s.inflightOperations ≤ m

/-- The usage that `check_allowance` evaluates. -/
def charged (s : ExecutionScope) (nowMs : ℕ) : Usage :=
  { wallTimeMs := nowMs - s.createdAtMs, turns := s.logicalModelCalls, capabilitySteps := s.toolCalls
    inputTokens := s.chargedInput, outputTokens := s.chargedOutput, totalTokens := s.chargedTotal
    concurrentRuns := s.inflightOperations }

theorem checkAllowance_iff (hv : s.validate = .ok ())
    (hword : ∀ m, s.limits.budget.maxTotalTokens = some m → m < 2 ^ 64) (hfits : s.Fits nowMs) :
    s.checkAllowance nowMs = .ok () ↔
      s.SumsUp ∧ s.ConcurrentRunsFit ∧ s.limits.budget.BelowApproval (s.charged nowMs) := by
  have hlimits := validate_limits hv
  have hbudget : s.limits.budget.validate = .ok () := by
    simp only [ExecutionLimits.validate, bind_eq_ok, toLimits_eq_ok] at hlimits
    obtain ⟨_, hb, _⟩ := hlimits
    exact hb
  have htotal : s.chargedTotal < 2 ^ 64 := by
    obtain ⟨_, _, _, hsome⟩ := limits_validate_some hlimits
    obtain ⟨m, hm⟩ := Option.isSome_iff_exists.mp hsome
    have h1 := hfits.total m hm
    have h2 := hword m hm
    omega
  obtain ⟨usage, hc⟩ := consumption_total hv htotal
  obtain ⟨hin, hout, htot, hcalls⟩ := consumption_charged hc
  obtain ⟨_, hattempts, htools, hretries, hinflight⟩ := consumption_spec hc
  have hops := hfits.operations
  unfold checkAllowance
  simp only [hc, bind_eq_ok, ensure_eq_ok, Except.ok.injEq, exists_eq_left', toLimits_eq_ok]
  rw [hattempts, htools, hretries, hinflight, hin, hout, htot, hcalls]
  constructor
  · rintro ⟨_, _, decision, hdec, rfl⟩
    obtain ⟨hu, hpairs, hbelow⟩ := (evaluate_eq_continue_iff hbudget).mp hdec
    refine ⟨?_, ?_, hbelow⟩
    · simp only [Usage.validate, bind_eq_ok, okOr_eq_ok, checkedAdd_eq_some, ensure_eq_ok] at hu
      obtain ⟨_, ⟨_, rfl⟩, hsum⟩ := hu
      exact s.sumsUp_iff.mpr hsum
    · exact hpairs (s.inflightOperations, s.limits.budget.maxConcurrentRuns) (by simp [Budget.pairs])
  · rintro ⟨hsum, hruns, hbelow⟩
    refine ⟨(), ⟨hops.attempts, hops.tools, hops.retried, hops.inflight⟩, .continue_, ?_, rfl⟩
    refine (evaluate_eq_continue_iff hbudget).mpr ⟨?_, ?_, hbelow⟩
    · have hsum := s.sumsUp_iff.mp hsum
      simp only [Usage.validate, bind_eq_ok, okOr_eq_ok, checkedAdd_eq_some, ensure_eq_ok]
      exact ⟨_, ⟨by omega, rfl⟩, hsum⟩
    · intro p hp m hm
      simp only [Budget.pairs, List.mem_cons, List.not_mem_nil, or_false] at hp
      rcases hp with rfl | rfl | rfl | rfl | rfl | rfl | rfl | rfl | rfl | rfl
      · exact hfits.wallTime m hm
      · exact hfits.logicalCalls m hm
      · exact hfits.toolCalls m hm
      · exact hfits.input m hm
      · exact hfits.output m hm
      · exact hfits.total m hm
      · exact Nat.zero_le m
      · exact hruns m hm
      · exact Nat.zero_le m
      · exact Nat.zero_le m

/-! ## Admission -/

/-- The reservation of a request before any report. -/
def unsettled (request : ReservationRequest) : ExecutionReservation :=
  { request, settlement := none, observedUsage := none }

theorem admitted_values (hfresh : s.reservations[request.id]? = none) :
    (s.admitted request).values.Perm (unsettled request :: s.values) := by
  have hperm : (s.reservations.insert request.id (unsettled request)).toList.Perm _ :=
    Table.toList_insert_perm (Table.not_mem_iff_getElem?_eq_none.mpr hfresh)
  exact hperm.map (·.2)

theorem admitted_sumsUp (hfresh : s.reservations[request.id]? = none) : (s.admitted request).SumsUp ↔ s.SumsUp := by
  have hnew : (unsettled request).SumsUp := Nat.zero_le _
  unfold SumsUp
  simp only [(admitted_values hfresh).mem_iff, List.forall_mem_cons]
  exact and_iff_right hnew

theorem size_eq (s : ExecutionScope) : s.reservations.size = s.modelAttempts + s.toolCalls := by
  have hlen : s.values.length = s.reservations.size := by
    unfold values
    rw [List.length_map, Std.ExtTreeMap.length_toList]
  rw [← hlen, List.length_eq_countP_add_countP isModelAttempt]
  refine congrArg (s.modelAttempts + ·) (List.countP_congr fun r _ => ?_)
  unfold isModelAttempt isToolCall
  cases r.request.operation <;> simp

theorem admitted_validate (hv : s.validate = .ok ()) (hreq : request.validate = .ok ())
    (hops : (s.admitted request).WithinLimits) : (s.admitted request).validate = .ok () := by
  have hlimits := validate_limits hv
  have hsize : (s.admitted request).reservations.size ≤ maxExecutionReservations := by
    have h1 := hops.attempts
    have h2 := hops.tools
    simp only [ExecutionLimits.validate, bind_eq_ok, ensure_eq_ok, Option.any_eq_true, checkedAdd_eq_some,
      decide_eq_true_eq] at hlimits
    obtain ⟨_, _, _, ⟨_, ⟨_, rfl⟩, hmax⟩, _⟩ := hlimits
    have h3 : (s.admitted request).limits = s.limits := rfl
    rw [h3] at h1 h2
    rw [size_eq]
    omega
  simp only [ExecutionScope.validate, bind_eq_ok, ensure_eq_ok] at hv ⊢
  obtain ⟨_, hid, _, hroot, _, hl, wall, hwall, latest, hlatest, _, ⟨hfrom, huntil, _⟩, hentries⟩ := hv
  refine ⟨(), hid, (), hroot, (), hl, wall, hwall, latest, hlatest, (), ⟨hfrom, huntil, hsize⟩, ?_⟩
  rw [forM_eq_ok] at hentries ⊢
  rintro ⟨key, reservation⟩ hmem
  have hget : (s.reservations.insert request.id (unsettled request))[key]? = some reservation := Table.mem_toList.mp hmem
  rw [Table.getElem?_insert_eq] at hget
  by_cases hkey : request.id = key
  · rw [if_pos hkey] at hget
    cases hget
    simp only [validateReservation, bind_eq_ok, ensure_eq_ok]
    refine ⟨(), hreq, (), hkey.symm, ?_⟩
    simp [unsettled]
  · rw [if_neg hkey] at hget
    exact hentries (key, reservation) (Table.mem_toList.mpr hget)

/-- **A request with room is granted iff the recorded charges sum up**, as far as the concurrent runs of the budget, the
approval threshold and the version counter have room too. -/
theorem reserve_granted_iff (hv : s.validate = .ok ())
    (hword : ∀ m, s.limits.budget.maxTotalTokens = some m → m < 2 ^ 64) (hreq : request.validate = .ok ())
    (hfresh : s.reservations[request.id]? = none) (hfrom : s.createdAtMs ≤ nowMs) (huntil : nowMs < s.deadlineAtMs)
    (hfits : (s.admitted request).Fits nowMs) :
    (∃ next, s.reserve request nowMs = .ok (.newlyGranted, next)) ↔
      s.SumsUp ∧ (s.admitted request).ConcurrentRunsFit ∧
        s.limits.budget.BelowApproval ((s.admitted request).charged nowMs) ∧ s.version + 1 < 2 ^ 64 := by
  have hcheck := checkAllowance_iff (admitted_validate hv hreq hfits.operations) hword hfits
  rw [admitted_sumsUp hfresh] at hcheck
  have hreserve : s.reserve request nowMs = (s.admission request nowMs >>= fun next => .ok (.newlyGranted, next)) := by
    unfold reserve
    rw [hv, hreq, hfresh]
    rfl
  rw [hreserve]
  simp only [admission, bind_eq_ok, ensure_eq_ok, okOr_eq_ok, checkedAdd_eq_some]
  constructor
  · rintro ⟨_, _, ⟨_, _, _, ⟨hversion, rfl⟩, _, hallow, _⟩, _⟩
    obtain ⟨hsum, hruns, hbelow⟩ := hcheck.mp hallow
    exact ⟨hsum, hruns, hbelow, hversion⟩
  · rintro ⟨hsum, hruns, hbelow, hversion⟩
    exact ⟨_, _, ⟨(), ⟨hfrom, huntil⟩, _, ⟨hversion, rfl⟩, (), hcheck.mpr ⟨hsum, hruns, hbelow⟩, rfl⟩, rfl⟩

end ExecutionScope

/-! ## Reports that sum up -/

/-- The stated total is not above the sum of the two sides. -/
def TokenUsage.SumsUp (u : TokenUsage) : Prop := u.totalTokens ≤ u.inputSide + u.outputSide

theorem TokenUsage.SumsUp.merge {a b : Option TokenUsage} (ha : ∀ u, a = some u → u.SumsUp)
    (hb : ∀ u, b = some u → u.SumsUp) : ∀ u, mergeObserved a b = some u → u.SumsUp := by
  intro u hu
  rcases a with _ | a <;> rcases b with _ | b
  · cases hu
  · exact hb u hu
  · exact ha u hu
  · have h1 := ha a rfl
    have h2 := hb b rfl
    cases hu
    unfold SumsUp inputSide outputSide at *
    dsimp only
    omega

/-- Every usage recorded for a reservation sums up. -/
structure ExecutionReservation.ReportsSumUp (r : ExecutionReservation) : Prop where
  settled : ∀ u, r.settledUsage = some u → u.SumsUp
  observed : ∀ u, r.observedUsage = some u → u.SumsUp

namespace ExecutionReservation

theorem ReportsSumUp.sumsUp (h : r.ReportsSumUp) : r.SumsUp := by
  have hsettled : r.settledUsage.elim 0 (·.totalTokens) ≤ r.chargedInput + r.chargedOutput := by
    unfold chargedInput chargedOutput chargedSide settledSide
    have hu := h.settled
    unfold settledUsage TokenUsage.SumsUp at *
    rcases ho : r.outcome with _ | (known | (_ | observed) | _)
    · exact Nat.zero_le _
    · have := hu known (by rw [ho]; rfl)
      show known.totalTokens ≤ max known.inputSide _ + max known.outputSide _
      omega
    · exact Nat.zero_le _
    · have := hu observed (by rw [ho]; rfl)
      show observed.totalTokens ≤ max (max observed.inputSide _) _ + max (max observed.outputSide _) _
      omega
    · exact Nat.zero_le _
  have hobserved : r.observedUsage.elim 0 (·.totalTokens) ≤ r.chargedInput + r.chargedOutput := by
    unfold chargedInput chargedOutput chargedSide
    cases ho : r.observedUsage with
    | none => exact Nat.zero_le _
    | some observed =>
      have := h.observed observed ho
      unfold TokenUsage.SumsUp at this
      show observed.totalTokens ≤ max _ observed.inputSide + max _ observed.outputSide
      omega
  exact max_le hsettled hobserved

theorem merged_sumsUp {old new out : SettlementOutcome} (h : mergeOutcome old new = .ok out)
    (hold : ∀ u, old.usage = some u → u.SumsUp) (hnew : ∀ u, new.usage = some u → u.SumsUp) :
    ∀ u, out.usage = some u → u.SumsUp := by
  unfold mergeOutcome at h
  split at h
  · cases h
    exact TokenUsage.SumsUp.merge hold hnew
  · cases h
    exact hnew
  · split_ifs at h
    cases h
    exact hnew
  · cases h
    exact hold
  · cases h
    exact hold
  · cases h
    exact hold
  · cases h

theorem ReportsSumUp.settle {r' : ExecutionReservation} {report : ReservationSettlement} (h : r.ReportsSumUp)
    (hreport : ∀ v, report.Saw v → v.SumsUp) (hset : r.settle report = .ok r') : r'.ReportsSumUp := by
  have houtcome : ∀ u, report.outcome.usage = some u → u.SumsUp := fun u hu => hreport u (.inr hu)
  refine ⟨?_, ?_⟩
  · unfold ExecutionReservation.settle at hset
    cases hs : r.settlement with
    | none =>
      rw [hs] at hset
      cases hset
      exact houtcome
    | some previous =>
      simp only [hs, bind_eq_ok] at hset
      obtain ⟨outcome, hmerge, hout⟩ := hset
      cases hout
      refine merged_sumsUp hmerge (fun u hu => h.settled u ?_) houtcome
      simp [settledUsage, ExecutionReservation.outcome, hs, hu]
  · rw [(settle_spec hset).2.1]
    refine TokenUsage.SumsUp.merge h.observed (TokenUsage.SumsUp.merge (fun u hu => hreport u (.inl hu)) houtcome)

end ExecutionReservation

namespace ExecutionScope

variable {s : ExecutionScope}

/-- A call whose report, if it is one, sums up. -/
def Call.SumsUp (call : Call) : Prop := ∀ report, call = .settle report → ∀ v, report.Saw v → v.SumsUp

theorem step_reportsSumUp {call : Call} (hcall : call.SumsUp)
    (h : ∀ (id : String) (r : ExecutionReservation), s.reservations[id]? = some r → r.ReportsSumUp) :
    ∀ (id : String) (r : ExecutionReservation), (s.step call).reservations[id]? = some r → r.ReportsSumUp := by
  intro id r hr
  rcases step_cases s call with ⟨hs, _⟩ | ⟨request, _, _, _, _, _, _, hs, _⟩ | ⟨p, r₀, r', hsettle, _, hr₀, hset, hs, _⟩
  · rw [hs] at hr
    exact h id r hr
  · rw [hs] at hr
    have hr : (s.reservations.insert request.id (unsettled request))[id]? = some r := hr
    rw [Table.getElem?_insert_eq] at hr
    split_ifs at hr
    · cases hr
      exact ⟨by simp [unsettled, ExecutionReservation.settledUsage, ExecutionReservation.outcome], by simp [unsettled]⟩
    · exact h id r hr
  · rw [hs] at hr
    have hr : (s.reservations.insert p.reservationId r')[id]? = some r := hr
    rw [Table.getElem?_insert_eq] at hr
    split_ifs at hr
    · cases hr
      exact (h p.reservationId r₀ hr₀).settle (hcall p hsettle) hset
    · exact h id r hr

theorem run_sumsUp {s₀ : ExecutionScope} (hempty : s₀.reservations = ∅) (calls : List Call)
    (hcalls : ∀ call ∈ calls, call.SumsUp) : (run step s₀ calls).SumsUp := by
  have hall : ∀ (id : String) (r : ExecutionReservation), (run step s₀ calls).reservations[id]? = some r →
      r.ReportsSumUp := by
    have hstart : ∀ (id : String) (r : ExecutionReservation), s₀.reservations[id]? = some r → r.ReportsSumUp := by
      intro id r hr
      rw [hempty] at hr
      simp at hr
    clear hempty
    induction calls generalizing s₀ with
    | nil => exact hstart
    | cons call calls ih =>
      rw [run_cons]
      have hnext := step_reportsSumUp (hcalls call List.mem_cons_self) hstart
      exact ih (fun c hc => hcalls c (List.mem_cons_of_mem _ hc)) hnext
  intro r hr
  obtain ⟨entry, hentry, rfl⟩ := List.mem_map.mp hr
  exact (hall entry.1 entry.2 (Table.mem_toList.mp hentry)).sumsUp

/-- **When an admission with room is granted.**  On every scope reached without an approval threshold, a valid request
with a fresh identity and room for its counts and charges is granted iff no recorded report states a total above the
input and output charged for its reservation, as far as the concurrent runs of the budget and the version counter have
room.  If every report of the run sums up, the first of these holds. -/
theorem reserve_exact {id rootRunId : String} {limits : ExecutionLimits} {createdMs : ℕ} {s₀ : ExecutionScope}
    (h : ExecutionScope.new id rootRunId limits createdMs = .ok s₀)
    (hnone : limits.budget.requireApprovalAtPercent = none)
    (hword : ∀ m, limits.budget.maxTotalTokens = some m → m < 2 ^ 64) (calls : List Call) :
    let s := run step s₀ calls
    (∀ (request : ReservationRequest) (nowMs : ℕ), request.validate = .ok () → s.reservations[request.id]? = none →
      s.createdAtMs ≤ nowMs → nowMs < s.deadlineAtMs → (s.admitted request).Fits nowMs →
      ((∃ next, s.reserve request nowMs = .ok (.newlyGranted, next)) ↔
        (∀ r ∈ s.values, r.statedTotal ≤ r.chargedInput + r.chargedOutput) ∧
          (s.admitted request).ConcurrentRunsFit ∧ s.version + 1 < 2 ^ 64)) ∧
      ((∀ call ∈ calls, call.SumsUp) → ∀ r ∈ s.values, r.statedTotal ≤ r.chargedInput + r.chargedOutput) := by
  intro s
  obtain ⟨hlimits₀, _, hempty, _⟩ := new_spec h
  have hlimits : s.limits = limits := by
    refine run_induction step s₀ (P := fun _ s => s.limits = limits) calls hlimits₀ ?_
    exact fun l call hl => (step_frame _ call).1.trans hl
  refine ⟨?_, fun hcalls => run_sumsUp hempty calls hcalls⟩
  intro request nowMs hreq hfresh hfrom huntil hfits
  rw [← hlimits] at hnone hword
  rw [reserve_granted_iff (reached_valid h calls) hword hreq hfresh hfrom huntil hfits]
  have hbelow := Budget.belowApproval_of_none hnone ((s.admitted request).charged nowMs)
  constructor
  · rintro ⟨hsum, hruns, -, hversion⟩
    exact ⟨hsum, hruns, hversion⟩
  · rintro ⟨hsum, hruns, hversion⟩
    exact ⟨hsum, hruns, hbelow, hversion⟩

namespace Sample

/-- A report whose total counts tokens that its output leaves out. -/
def widerTotal : ReservationSettlement :=
  { reservationId := "one", physicalRetired := true, observedUsage := none
    outcome := .known { promptTokens := 10, completionTokens := 5, totalTokens := 25, reasoningTokens := 10 } }

/-- The scope after that report on its first attempt. -/
def reported (report : ReservationSettlement) : ExecutionScope :=
  run step scope [.reserve (attempt "one") 101, .settle report]

end Sample

theorem sample_fits {s : ExecutionScope} (hlimits : s.limits = Sample.limits) (hcreated : s.createdAtMs = 100)
    (hops : s.modelAttempts ≤ 3 ∧ s.toolCalls ≤ 1 ∧ s.retries ≤ 2 ∧ s.inflightOperations ≤ 2)
    (hcharged : s.chargedInput ≤ 400 ∧ s.chargedOutput ≤ 200 ∧ s.chargedTotal ≤ 600) :
    s.Fits 102 ∧ s.ConcurrentRunsFit := by
  unfold ConcurrentRunsFit
  refine ⟨⟨⟨?_, ?_, ?_, ?_⟩, ?_, ?_, ?_, ?_, ?_, ?_⟩, ?_⟩
  all_goals
    rw [hlimits]
    unfold Sample.limits
    grind

/-- A report of 25 tokens, 10 of them input and 10 output, blocks a request that has room for everything. -/
theorem wider_total_blocks :
    ExecutionScope.new "scope" "root" Sample.limits 100 = .ok Sample.scope ∧
      Sample.limits.budget.requireApprovalAtPercent = none ∧ (Sample.attempt "two").validate = .ok () ∧
      (Sample.reported Sample.widerTotal).reservations["two"]? = none ∧
      (Sample.reported Sample.widerTotal).createdAtMs ≤ 102 ∧ 102 < (Sample.reported Sample.widerTotal).deadlineAtMs ∧
      ((Sample.reported Sample.widerTotal).admitted (Sample.attempt "two")).Fits 102 ∧
      ((Sample.reported Sample.widerTotal).admitted (Sample.attempt "two")).ConcurrentRunsFit ∧
      ((Sample.reported Sample.widerTotal).apply (.reserve (Sample.attempt "two") 102)).1 =
        .error (.rejected "execution usage is inconsistent") ∧
      ¬ ∃ next, (Sample.reported Sample.widerTotal).reserve (Sample.attempt "two") 102 = .ok (.newlyGranted, next) := by
  obtain ⟨hfits, hruns⟩ := sample_fits (s := (Sample.reported Sample.widerTotal).admitted (Sample.attempt "two"))
    (by decide +kernel) (by decide +kernel) (by decide +kernel) (by decide +kernel)
  have herror : ((Sample.reported Sample.widerTotal).apply (.reserve (Sample.attempt "two") 102)).1 =
      .error (.rejected "execution usage is inconsistent") := by decide +kernel
  refine ⟨rfl, rfl, by decide +kernel, by decide +kernel, by decide +kernel, by decide +kernel, hfits, hruns, herror, ?_⟩
  rintro ⟨next, hgrant⟩
  simp only [apply, hgrant] at herror
  cases herror

/-- The same request after a report that sums up. -/
theorem summed_report_granted :
    ∃ next, (Sample.reported (Sample.knownReport 100)).reserve (Sample.attempt "two") 102 = .ok (.newlyGranted, next) := by
  have hnew : ExecutionScope.new "scope" "root" Sample.limits 100 = .ok Sample.scope := rfl
  have hword : ∀ m, Sample.limits.budget.maxTotalTokens = some m → m < 2 ^ 64 := by
    rintro m hm
    cases hm
    decide
  obtain ⟨hexact, hsums⟩ := reserve_exact hnew rfl hword
    [.reserve (Sample.attempt "one") 101, .settle (Sample.knownReport 100)]
  obtain ⟨hfits, hruns⟩ := sample_fits (s := (Sample.reported (Sample.knownReport 100)).admitted (Sample.attempt "two"))
    (by decide +kernel) (by decide +kernel) (by decide +kernel) (by decide +kernel)
  refine (hexact (Sample.attempt "two") 102 (by decide +kernel) (by decide +kernel) (by decide +kernel) (by decide +kernel)
    hfits).mpr ⟨hsums ?_, hruns, by decide +kernel⟩
  intro call hcall report hreport v hsaw
  rw [hreport] at hcall
  rcases List.mem_cons.mp hcall with h | hcall
  · cases h
  · cases List.mem_singleton.mp hcall
    rcases hsaw with hsaw | hsaw
    · cases hsaw
    · cases hsaw
      exact Nat.zero_le _

end ExecutionScope

end AnimaCore
