import AnimaCore.Workflows.Operations

/-!
# AnimaCore.Workflows.Validity — a successful call leaves a run that validates

`Effect.validate`: the local checks hold again (`Effect.locallyValid`), and the replay that ended in the run before the
call goes on to the run after it.  For the second part `Onwards w w'` says that `w'` keeps the completed steps, the saved
attempts and the decisions of `w`; then every event of a replay of `w` is one of `w'` (`Replays.onwards`).
-/

namespace AnimaCore.Workflows

open Lib

variable {w w' w'' : WorkflowRun} {call : Call} {s s' : ReplayState} {index : ℕ} {step : WorkflowStep}

/-! ## What a run keeps -/

/-- The run `w'` keeps the completed steps, the saved attempts and the decisions of `w`. -/
structure Onwards (w w' : WorkflowRun) : Prop where
  revision : w.revision ≤ w'.revision
  length : w'.steps.length = w.steps.length
  steps : ∀ (i : ℕ) (step : WorkflowStep), w.steps[i]? = some step →
    ∃ step' : WorkflowStep, w'.steps[i]? = some step' ∧ step'.kind = step.kind ∧
      step.attempts <+: step'.attempts ∧ (step.status = .completed → step' = step)
  decisions : ∃ ds, w'.decisions = w.decisions ++ ds ∧ ∀ d ∈ ds, w.revision ≤ d.request.revision

theorem Onwards.refl (w : WorkflowRun) : Onwards w w where
  revision := le_rfl
  length := rfl
  steps := fun _ step h => ⟨step, h, rfl, List.prefix_rfl, fun _ => rfl⟩
  decisions := ⟨[], by simp, by simp⟩

theorem Onwards.trans (h : Onwards w w') (h' : Onwards w' w'') : Onwards w w'' where
  revision := h.revision.trans h'.revision
  length := h'.length.trans h.length
  steps := by
    intro i step hstep
    obtain ⟨step', hstep', hkind, hatt, hdone⟩ := h.steps i step hstep
    obtain ⟨step'', hstep'', hkind', hatt', hdone'⟩ := h'.steps i step' hstep'
    refine ⟨step'', hstep'', hkind'.trans hkind, hatt.trans hatt', fun hc => ?_⟩
    have he := hdone hc
    subst he
    exact hdone' hc
  decisions := by
    obtain ⟨ds, hds, hlater⟩ := h.decisions
    obtain ⟨ds', hds', hlater'⟩ := h'.decisions
    refine ⟨ds ++ ds', by rw [hds', hds, List.append_assoc], fun d hd => ?_⟩
    rcases List.mem_append.mp hd with hd | hd
    · exact hlater d hd
    · exact h.revision.trans (hlater' d hd)

theorem Onwards.kind_eq (h : Onwards w w') (i : ℕ) : w'.steps[i]?.map (·.kind) = w.steps[i]?.map (·.kind) := by
  cases hstep : w.steps[i]? with
  | none =>
    have hlen : w'.steps.length ≤ i := by
      rw [h.length]
      exact List.getElem?_eq_none_iff.mp hstep
    rw [List.getElem?_eq_none_iff.mpr hlen]
  | some step =>
    obtain ⟨step', hstep', hkind, _⟩ := h.steps i step hstep
    simp [hstep', hkind]

theorem Onwards.replayAdvance_eq (h : Onwards w w') (s : ReplayState) : w'.replayAdvance s = w.replayAdvance s := by
  have hphase : ∀ v : WorkflowRun, v.steps[s.step + 1]?.map (fun step => initialPhase step.kind) =
      (v.steps[s.step + 1]?.map (·.kind)).map initialPhase := fun v => by simp [Function.comp_def]
  simp only [WorkflowRun.replayAdvance, hphase, h.kind_eq]

theorem Onwards.noDecision (h : Onwards w w') (hrev : s.revision < w.revision) (hno : NoDecision w s) :
    NoDecision w' s := by
  obtain ⟨ds, hds, hlater⟩ := h.decisions
  intro d hd
  rw [hds, List.getElem?_append] at hd
  split_ifs at hd with hlt
  · exact hno d hd
  · have := hlater d (List.mem_of_getElem? hd)
    omega

theorem Onwards.hasDecision {d : WorkflowDecision} (h : Onwards w w') (hd : HasDecision w s d) : HasDecision w' s d := by
  obtain ⟨ds, hds, _⟩ := h.decisions
  refine ⟨?_, hd.2⟩
  have hlt := (List.getElem?_eq_some_iff.mp hd.1).1
  rw [hds, List.getElem?_append_left hlt]
  exact hd.1

theorem replayCanComplete_iff {result : Option String} :
    w.replayCanComplete s result = true ↔
      ∃ step, w.steps[s.step]? = some step ∧ step.status = .completed ∧ step.result = result ∧
        s.attempt = step.attempt ∧ (if s.attached then step.jobId = step.attempts.getLast? else step.jobId = none) := by
  unfold WorkflowRun.replayCanComplete WorkflowRun.replayMatchesAttempt
  cases w.steps[s.step]? with
  | none => simp
  | some step =>
    cases s.attached with
    | false => simp; tauto
    | true => simp; tauto

theorem Onwards.replayCanComplete {result : Option String} (h : Onwards w w')
    (hcan : w.replayCanComplete s result = true) : w'.replayCanComplete s result = true := by
  obtain ⟨step, hstep, hdone, hrest⟩ := replayCanComplete_iff.mp hcan
  obtain ⟨step', hstep', _, _, hsame⟩ := h.steps _ _ hstep
  have he := hsame hdone
  subst he
  exact replayCanComplete_iff.mpr ⟨_, hstep', hdone, hrest⟩

theorem Replays.onwards (hon : Onwards w w') (hrev : s.revision < w.revision) (h : Replays w s s') :
    Replays w' s s' := by
  have hrev' : s.revision < w'.revision := hrev.trans_le hon.revision
  cases h with
  | attach hno _ hstep hphase hmore =>
    obtain ⟨step', hstep', _, hatt, _⟩ := hon.steps _ _ hstep
    exact .attach (hon.noDecision hrev hno) hrev' hstep' hphase (hmore.trans_le hatt.length_le)
  | review hno _ hstep hphase =>
    obtain ⟨step', hstep', _⟩ := hon.steps _ _ hstep
    exact .review (hon.noDecision hrev hno) hrev' hstep' hphase
  | @complete step hno _ hstep hphase hcan =>
    obtain ⟨done, hdone, hcompleted, _⟩ := replayCanComplete_iff.mp hcan
    obtain ⟨step', hstep', _, _, hsame⟩ := hon.steps _ _ hstep
    rw [hstep, Option.some.injEq] at hdone
    have he := hsame (hdone ▸ hcompleted)
    subst he
    rw [← hon.replayAdvance_eq]
    exact .complete (hon.noDecision hrev hno) hrev' hstep' hphase (hon.replayCanComplete hcan)
  | retry hd hstep hphase haction hmore =>
    obtain ⟨step', hstep', _⟩ := hon.steps _ _ hstep
    exact .retry (hon.hasDecision hd) hstep' hphase haction hmore
  | decide hd hstep haction hcan =>
    obtain ⟨step', hstep', _⟩ := hon.steps _ _ hstep
    rw [← hon.replayAdvance_eq]
    exact .decide (hon.hasDecision hd) hstep' haction (hon.replayCanComplete hcan)

theorem Path.onwards {first : WorkflowStep} (hon : Onwards w w') (hle : s.revision ≤ w.revision)
    (h : Path w first s) : Path w' first s := by
  induction h with
  | refl => exact .refl
  | @tail t s hpath hstep ih =>
    have hrev := hstep.revision_eq
    exact .tail (ih (by omega)) (hstep.onwards hon (by omega))

/-! ## What the local checks say of a step -/

theorem StepValid.earlier (h : StepValid w index step) (hi : index < w.currentStep) : step.status = .completed := by
  have hpos := h.position
  rw [WorkflowRun.validatePosition, if_pos hi] at hpos
  exact ensure_eq_ok.mp hpos

theorem StepValid.later (h : StepValid w index step) (hi : w.currentStep < index) :
    step.status = (if w.status = .cancelled then .cancelled else .pending) ∧ step.attempt = 0 ∧ step.jobId = none := by
  have hpos := h.position
  rw [WorkflowRun.validatePosition, if_neg (by omega), if_pos hi] at hpos
  exact ensure_eq_ok.mp hpos

theorem StepValid.current (h : StepValid w w.currentStep step) : w.currentMatches step = true := by
  have hpos := h.position
  rw [WorkflowRun.validatePosition, if_neg (lt_irrefl _), if_neg (lt_irrefl _)] at hpos
  exact ensure_eq_ok.mp hpos

theorem StepValid.not_completed (h : StepValid w index step) (hi : w.currentStep ≤ index) :
    step.status ≠ .completed := by
  rcases hi.eq_or_lt with rfl | hlt
  · intro hc
    have hm := h.current
    cases hs : w.status <;> simp [WorkflowRun.currentMatches, hs, hc] at hm
  · intro hc
    have hl := (h.later hlt).1
    rw [hc] at hl
    split_ifs at hl

theorem StepValid.no_result (h : StepValid w index step) (hi : w.currentStep ≤ index) : step.result = none := by
  have hres := h.result
  rw [WorkflowRun.validateResult, if_neg (h.not_completed hi)] at hres
  exact ensure_eq_ok.mp hres

theorem validateResult_of_open (hopen : step.status ≠ .completed) (hres : step.result = none) :
    WorkflowRun.validateResult step = .ok () := by
  rw [WorkflowRun.validateResult, if_neg hopen]
  exact ensure_eq_ok.mpr hres

theorem StepValid.of_earlier (h : StepValid w index step) (hi : index < w.currentStep)
    (hle : w.currentStep ≤ w'.currentStep) : StepValid w' index step where
  attempt := h.attempt
  bound := h.bound
  job := h.job
  checkpoint := h.checkpoint
  position := by
    rw [WorkflowRun.validatePosition, if_pos (by omega)]
    exact ensure_eq_ok.mpr (h.earlier hi)
  result := h.result

theorem StepValid.of_later (h : StepValid w index step) (hi : w.currentStep < index) (hi' : w'.currentStep < index)
    (hopen : w.status ≠ .cancelled) (hopen' : w'.status ≠ .cancelled) : StepValid w' index step where
  attempt := h.attempt
  bound := h.bound
  job := h.job
  checkpoint := h.checkpoint
  position := by
    have hl := h.later hi
    rw [WorkflowRun.validatePosition, if_neg (by omega), if_pos hi']
    rw [if_neg hopen] at hl
    rw [if_neg hopen']
    exact ensure_eq_ok.mpr hl
  result := h.result

/-! ## The frame of a call -/

/-- A call leaves the definition alone, raises the revision, and at most adds a decision about the current step. -/
structure Follows (w w' : WorkflowRun) (now : ℕ) : Prop where
  id : w'.id = w.id
  agentId : w'.agentId = w.agentId
  created : w'.createdAtMs = w.createdAtMs
  source : w'.sourceTemplate = w.sourceTemplate
  definition : w'.definition = w.definition
  revision : w'.revision = w.revision + 1
  updated : w'.updatedAtMs = now
  decisions : w'.decisions = w.decisions ∨ ∃ d, w'.decisions = w.decisions ++ [d] ∧ d.request.validate = .ok () ∧
    d.stepIndex < w.steps.length ∧ d.request.revision = w.revision ∧ d.decidedAtMs = now ∧
    w.decisions.length < maxWorkflowDecisions

theorem setStep_steps (w : WorkflowRun) (i : ℕ) (f : WorkflowStep → WorkflowStep) :
    (w.setStep i f).steps = w.steps.mapIdx fun j step => if j = i then f step else step := by
  apply List.ext_getElem?
  intro j
  simp only [WorkflowRun.setStep, List.getElem?_modify, List.getElem?_mapIdx]
  by_cases hj : j = i
  · subst hj
    simp
  · have hj' : i ≠ j := Ne.symm hj
    simp [hj, hj']

theorem map_mapIdx_eq {α : Type} {g : WorkflowStep → α} {f : ℕ → WorkflowStep → WorkflowStep}
    (h : ∀ i step, g (f i step) = g step) (steps : List WorkflowStep) : (steps.mapIdx f).map g = steps.map g := by
  apply List.ext_getElem?
  intro i
  cases hi : steps[i]? with
  | none => simp [hi]
  | some step => simp [hi, h]

theorem definition_eq {f : ℕ → WorkflowStep → WorkflowStep} (htitle : w'.title = w.title)
    (hkey : w'.requestKey = w.requestKey) (hsteps : w'.steps = w.steps.mapIdx f)
    (hf : ∀ i step, (f i step).id = step.id ∧ (f i step).title = step.title ∧ (f i step).kind = step.kind ∧
      (f i step).prompt = step.prompt) : w'.definition = w.definition := by
  simp only [WorkflowRun.definition, htitle, hkey, hsteps, WorkflowInput.mk.injEq, true_and]
  refine map_mapIdx_eq (fun i step => ?_) w.steps
  obtain ⟨h1, h2, h3, h4⟩ := hf i step
  simp [h1, h2, h3, h4]

def Effect.onStep (w : WorkflowRun) (call : Call) (index : ℕ) (step : WorkflowStep) : WorkflowStep :=
  match call with
  | .attachJob jobId _ =>
    if index = w.currentStep then
      { step with
        attempt := step.attempt + 1
        attempts := step.attempts ++ [jobId]
        jobId := some jobId
        status := .running }
    else step
  | .completeTask result _ => advancedStep w.currentStep (some result) index step
  | .needsReview _ _ => if index = w.currentStep then { step with status := .needsReview } else step
  | .resume request _ =>
    if request.action = .retry then
      if index = w.currentStep then { step with status := .pending, jobId := none } else step
    else advancedStep w.currentStep request.value index step
  | .cancel _ _ => if w.currentStep ≤ index then { step with status := .cancelled } else step

theorem Effect.steps_eq (h : Effect w call w') : w'.steps = w.steps.mapIdx (Effect.onStep w call) := by
  cases h with
  | attachJob => exact setStep_steps w _ _
  | completeTask => simp only [advanced_eq]; rfl
  | needsReview => exact setStep_steps w _ _
  | @resume request now =>
    by_cases haction : request.action = .retry
    · have hon : Effect.onStep w (.resume request now) = fun j step =>
          if j = w.currentStep then { step with status := .pending, jobId := none } else step := by
        funext j step
        simp [Effect.onStep, haction]
      rw [hon, WorkflowRun.decided, if_pos haction]
      exact setStep_steps w _ _
    · have hon : Effect.onStep w (.resume request now) = advancedStep w.currentStep request.value := by
        funext j step
        simp [Effect.onStep, haction]
      rw [hon, WorkflowRun.decided, if_neg haction, advanced_eq]
  | cancel => rfl

theorem advancedStep_spec (current : ℕ) (result : Option String) (index : ℕ) (step : WorkflowStep) :
    (advancedStep current result index step).id = step.id ∧ (advancedStep current result index step).title = step.title ∧
      (advancedStep current result index step).kind = step.kind ∧
      (advancedStep current result index step).prompt = step.prompt ∧
      (advancedStep current result index step).attempts = step.attempts := by
  unfold advancedStep
  split_ifs <;> simp

theorem Effect.onStep_spec (w : WorkflowRun) (call : Call) (index : ℕ) (step : WorkflowStep) :
    (Effect.onStep w call index step).id = step.id ∧ (Effect.onStep w call index step).title = step.title ∧
      (Effect.onStep w call index step).kind = step.kind ∧ (Effect.onStep w call index step).prompt = step.prompt ∧
      step.attempts <+: (Effect.onStep w call index step).attempts := by
  cases call with
  | attachJob jobId now =>
    simp only [Effect.onStep]
    split_ifs <;> simp
  | completeTask result now =>
    obtain ⟨h1, h2, h3, h4, h5⟩ := advancedStep_spec w.currentStep (some result) index step
    exact ⟨h1, h2, h3, h4, h5 ▸ List.prefix_rfl⟩
  | needsReview error now =>
    simp only [Effect.onStep]
    split_ifs <;> simp
  | resume request now =>
    simp only [Effect.onStep]
    by_cases haction : request.action = .retry
    · rw [if_pos haction]
      split_ifs <;> simp
    · rw [if_neg haction]
      obtain ⟨h1, h2, h3, h4, h5⟩ := advancedStep_spec w.currentStep request.value index step
      exact ⟨h1, h2, h3, h4, h5 ▸ List.prefix_rfl⟩
  | cancel revision now =>
    simp only [Effect.onStep]
    split_ifs <;> simp

theorem Effect.follows (h : Effect w call w') : Follows w w' call.now := by
  have hsteps := h.steps_eq
  have hdef : w'.title = w.title → w'.requestKey = w.requestKey → w'.definition = w.definition := fun ht hk =>
    definition_eq ht hk hsteps fun i step => by
      obtain ⟨h1, h2, h3, h4, _⟩ := Effect.onStep_spec w call i step
      exact ⟨h1, h2, h3, h4⟩
  cases h with
  | attachJob => exact ⟨rfl, rfl, rfl, rfl, hdef rfl rfl, rfl, rfl, .inl rfl⟩
  | completeTask =>
    simp only [advanced_eq] at hdef ⊢
    exact ⟨rfl, rfl, rfl, rfl, hdef trivial trivial, rfl, rfl, .inl rfl⟩
  | needsReview => exact ⟨rfl, rfl, rfl, rfl, hdef rfl rfl, rfl, rfl, .inl rfl⟩
  | @resume request now step hfresh hrev hrequest hcount hawaits hstep hretry =>
    have hlt := (List.getElem?_eq_some_iff.mp hstep).1
    have hdec : ∃ d, w.decisions ++ [{ stepIndex := w.currentStep, request := request, decidedAtMs := now }] =
        w.decisions ++ [d] ∧ d.request.validate = .ok () ∧ d.stepIndex < w.steps.length ∧
        d.request.revision = w.revision ∧ d.decidedAtMs = now ∧ w.decisions.length < maxWorkflowDecisions :=
      ⟨_, rfl, hrequest, hlt, hrev, rfl, hcount⟩
    by_cases haction : request.action = .retry
    · simp only [WorkflowRun.decided, if_pos haction] at hdef ⊢
      exact ⟨rfl, rfl, rfl, rfl, hdef rfl rfl, rfl, rfl, .inr hdec⟩
    · simp only [WorkflowRun.decided, if_neg haction, advanced_eq] at hdef ⊢
      exact ⟨rfl, rfl, rfl, rfl, hdef trivial trivial, rfl, rfl, .inr hdec⟩
  | cancel => exact ⟨rfl, rfl, rfl, rfl, hdef rfl rfl, rfl, rfl, .inl rfl⟩

theorem Effect.getElem?_steps (h : Effect w call w') (i : ℕ) :
    w'.steps[i]? = w.steps[i]?.map (Effect.onStep w call i) := by
  rw [h.steps_eq, List.getElem?_mapIdx]

theorem Effect.onStep_earlier (h : Effect w call w') (hi : index < w.currentStep) :
    Effect.onStep w call index step = step := by
  have hne : index ≠ w.currentStep := by omega
  have hne' : index ≠ w.currentStep + 1 := by omega
  cases h with
  | attachJob => simp [Effect.onStep, hne]
  | completeTask => simp [Effect.onStep, advancedStep, hne, hne']
  | needsReview => simp [Effect.onStep, hne]
  | resume => simp [Effect.onStep, advancedStep, hne, hne']
  | cancel => simp [Effect.onStep, hi]

theorem Effect.onwards (hv : LocallyValid w) (h : Effect w call w') : Onwards w w' where
  revision := by rw [h.follows.revision]; omega
  length := by simp [h.steps_eq]
  steps := by
    intro i step hstep
    obtain ⟨_, _, hkind, _, hatt⟩ := Effect.onStep_spec w call i step
    refine ⟨Effect.onStep w call i step, by simp [h.getElem?_steps, hstep], hkind, hatt, fun hdone => ?_⟩
    by_cases hi : i < w.currentStep
    · exact h.onStep_earlier hi
    · exact absurd hdone ((hv.steps i step hstep).not_completed (by omega))
  decisions := by
    rcases h.follows.decisions with hsame | ⟨d, hd, _, _, hrev, _⟩
    · exact ⟨[], by simp [hsame], by simp⟩
    · exact ⟨[d], hd, by simp [hrev]⟩

theorem DecisionValid.follows {d : WorkflowDecision} {now : ℕ} (hf : Follows w w' now) (hnow : w.updatedAtMs ≤ now)
    (h : DecisionValid w d) : DecisionValid w' d where
  request := h.request
  step := by
    have hlen := congrArg (fun input => input.steps.length) hf.definition
    simp only [WorkflowRun.definition, List.length_map] at hlen
    rw [hlen]
    exact h.step
  revision := by
    rw [hf.revision]
    have := h.revision
    omega
  after := hf.created ▸ h.after
  before := by
    rw [hf.updated]
    exact h.before.trans hnow
  last := by
    rw [hf.revision]
    have := h.revision
    omega

theorem LocallyValid.follows {now : ℕ} (hv : LocallyValid w) (hf : Follows w w' now) (hnow : w.updatedAtMs ≤ now)
    (hcur : w'.currentStep ≤ w'.steps.length) (hcomp : w'.status = .completed ↔ w'.currentStep = w'.steps.length)
    (herr : WorkflowRun.errorMatches w'.error w'.status = true) (hjobs : (w'.steps.flatMap (·.attempts)).Nodup)
    (hrefs : ∀ jobId ∈ w'.steps.flatMap (·.attempts), validateReference jobId "workflow job ID" = .ok ())
    (hsteps : ∀ index step, w'.steps[index]? = some step → StepValid w' index step) : LocallyValid w' := by
  have hkey : w'.requestKey = w.requestKey := congrArg WorkflowInput.requestKey hf.definition
  have hlen : w'.steps.length = w.steps.length := by
    have hlen := congrArg (fun input => input.steps.length) hf.definition
    simpa [WorkflowRun.definition] using hlen
  have hrev := hf.revision
  have hpos := hv.revision
  have hvalid : ∀ d ∈ w.decisions, DecisionValid w' d := fun d hd => (hv.decisions d hd).follows hf hnow
  refine ⟨?_, hf.id ▸ hv.id, hf.agentId ▸ hv.agent, hf.definition ▸ hv.definition, by omega, ?_, by omega, hcur, hcomp,
    herr, hjobs, hrefs, hsteps, ?_, ?_, ?_⟩
  · have hsource := hv.source
    rw [WorkflowRun.validateSource] at hsource ⊢
    rw [hf.source, hkey]
    exact hsource
  · rw [hf.created, hf.updated]
    exact hv.times.trans hnow
  · rcases hf.decisions with hsame | ⟨d, hd, _, _, _, _, hcount⟩
    · rw [hsame]
      exact hv.count
    · rw [hd, List.length_append, List.length_singleton]
      exact hcount
  · rcases hf.decisions with hsame | ⟨d, hd, hreq, hstep, hdrev, htime, _⟩
    · rw [hsame]
      exact hvalid
    · rw [hd]
      intro d' hd'
      rcases List.mem_append.mp hd' with hd' | hd'
      · exact hvalid d' hd'
      · rw [List.mem_singleton] at hd'
        subst hd'
        refine ⟨hreq, by omega, by omega, ?_, ?_, fun _ => ?_⟩
        · rw [hf.created, htime]
          exact hv.times.trans hnow
        · rw [hf.updated, htime]
        · rw [hf.updated, htime]
  · rcases hf.decisions with hsame | ⟨d, hd, _, _, hdrev, htime, _⟩
    · rw [hsame]
      exact hv.ordered
    · rw [hd, List.pairwise_append]
      refine ⟨hv.ordered, List.pairwise_singleton _ _, fun a ha b hb => ?_⟩
      rw [List.mem_singleton] at hb
      subst hb
      have hav := hv.decisions a ha
      exact ⟨hdrev ▸ hav.revision, htime ▸ hav.before.trans hnow⟩

/-! ## The steps after a call -/

theorem statusAt_ne_cancelled (steps : List WorkflowStep) (i : ℕ) : statusAt steps i ≠ .cancelled := by
  unfold statusAt
  cases steps[i]? with
  | none => simp
  | some step => cases h : step.kind <;> simp [WorkflowRun.activation, h]

theorem statusAt_ne_needsReview (steps : List WorkflowStep) (i : ℕ) : statusAt steps i ≠ .needsReview := by
  unfold statusAt
  cases steps[i]? with
  | none => simp
  | some step => cases h : step.kind <;> simp [WorkflowRun.activation, h]

theorem statusAt_eq_completed {steps : List WorkflowStep} {i : ℕ} :
    statusAt steps i = .completed ↔ steps.length ≤ i := by
  unfold statusAt
  rw [← List.getElem?_eq_none_iff]
  cases steps[i]? with
  | none => simp
  | some step => cases h : step.kind <;> simp [WorkflowRun.activation, h]

theorem running_current (hv : StepValid w w.currentStep step) (hrun : w.status = .running) :
    step.kind = .task ∧ (step.status = .pending ∨ step.status = .running) := by
  have hm := hv.current
  simpa [WorkflowRun.currentMatches, hrun] using hm

theorem no_error (hv : LocallyValid w) (hne : w.status ≠ .needsReview) : w.error = none := by
  have herr := hv.error
  cases he : w.error with
  | none => rfl
  | some error => cases hs : w.status <;> simp_all [WorkflowRun.errorMatches]

theorem StepValid.of_status (h : StepValid w index step) {status : WorkflowStepStatus} (hi : w.currentStep ≤ index)
    (hopen : status ≠ .completed) (hpos : w'.validatePosition index { step with status := status } = .ok ()) :
    StepValid w' index { step with status := status } :=
  ⟨h.attempt, h.bound, h.job, h.checkpoint, hpos, validateResult_of_open hopen (h.no_result hi)⟩

theorem position_current (hi : index = w.currentStep) (h : w.currentMatches step = true) :
    w.validatePosition index step = .ok () := by
  rw [WorkflowRun.validatePosition, if_neg (by omega), if_neg (by omega)]
  exact ensure_eq_ok.mpr h

theorem StepValid.advanced {result : Option String} (h : StepValid w index step)
    (hstep : w.steps[index]? = some step) (hi : w.currentStep ≤ index) (hopen : w.status ≠ .cancelled)
    (hcur : w'.currentStep = w.currentStep + 1) (hstatus : w'.status = statusAt w.steps (w.currentStep + 1))
    (hres : index = w.currentStep → WorkflowRun.resultMatches step.kind result = true) :
    StepValid w' index (advancedStep w.currentStep result index step) := by
  unfold advancedStep
  split_ifs with h1 h2
  · refine ⟨h.attempt, h.bound, h.job, h.checkpoint, ?_, ?_⟩
    · rw [WorkflowRun.validatePosition, if_pos (by omega)]
      exact ensure_eq_ok.mpr rfl
    · rw [WorkflowRun.validateResult, if_pos rfl]
      exact ensure_eq_ok.mpr (hres h1)
  · refine h.of_status hi (by cases step.kind <;> simp [initialPhase]) (position_current (by omega) ?_)
    rw [← h2, statusAt, hstep] at hstatus
    cases hk : step.kind <;>
      simp [WorkflowRun.currentMatches, hstatus, hk, WorkflowRun.activation, initialPhase]
  · exact h.of_later (by omega) (by omega) hopen (hstatus ▸ statusAt_ne_cancelled _ _)

theorem request_result {request : WorkflowResumeRequest} (hreq : request.validate = .ok ())
    (haction : request.action ≠ .retry) (hm : w.currentMatches step = true) (hawaits : w.awaits request.action = true) :
    WorkflowRun.resultMatches step.kind request.value = true := by
  obtain ⟨_, hvalue, _⟩ := request_validate_eq_ok.mp hreq
  cases ha : request.action with
  | retry => exact absurd ha haction
  | approve =>
    rw [ha] at hawaits
    have hstatus : w.status = .awaitingApproval := by simpa [WorkflowRun.awaits] using hawaits
    have hnone : request.value = none := by simpa [ha] using hvalue
    simp only [WorkflowRun.currentMatches, hstatus, Bool.and_eq_true, beq_iff_eq] at hm
    simp [hm.1, hnone, WorkflowRun.resultMatches]
  | answer =>
    rw [ha] at hawaits
    have hstatus : w.status = .awaitingInput := by simpa [WorkflowRun.awaits] using hawaits
    rw [if_neg (by simp [ha])] at hvalue
    obtain ⟨value, hval, hblank, hsize⟩ := hvalue
    simp only [WorkflowRun.currentMatches, hstatus, Bool.and_eq_true, beq_iff_eq] at hm
    simp [hm.1, hval, hblank, hsize, WorkflowRun.resultMatches]
  | resolve =>
    rw [ha] at hawaits
    have hstatus : w.status = .needsReview := by simpa [WorkflowRun.awaits] using hawaits
    rw [if_neg (by simp [ha])] at hvalue
    obtain ⟨value, hval, _, hsize⟩ := hvalue
    have hle : maxWorkflowInputBytes ≤ maxWorkflowResultBytes := by decide
    simp only [WorkflowRun.currentMatches, hstatus, Bool.and_eq_true, beq_iff_eq] at hm
    simp [hm.1, hval, hsize.trans hle, WorkflowRun.resultMatches]

theorem Effect.currentStep_le (h : Effect w call w') : w.currentStep ≤ w'.currentStep := by
  cases h with
  | attachJob => exact le_rfl
  | completeTask =>
    rw [advanced_eq]
    exact Nat.le_succ _
  | needsReview => exact le_rfl
  | @resume request now =>
    unfold WorkflowRun.decided
    by_cases haction : request.action = .retry
    · rw [if_pos haction]
      exact le_rfl
    · rw [if_neg haction, advanced_eq]
      exact Nat.le_succ _
  | cancel => exact le_rfl

theorem Effect.stepValid (hv : LocallyValid w) (h : Effect w call w') (hstep : w'.steps[index]? = some step) :
    StepValid w' index step := by
  rw [h.getElem?_steps, Option.map_eq_some_iff] at hstep
  obtain ⟨old, hold, rfl⟩ := hstep
  have hvalid := hv.steps index old hold
  rcases lt_or_ge index w.currentStep with hi | hi
  · rw [h.onStep_earlier hi]
    exact hvalid.of_earlier hi h.currentStep_le
  · cases h with
    | @attachJob jobId now step href hrun hstep hpending hmore hnew =>
      rcases hi.eq_or_lt with rfl | hlt
      · obtain rfl : step = old := Option.some.inj (hstep.symm.trans hold)
        obtain ⟨hkind, _⟩ := running_current hvalid hrun
        simp only [Effect.onStep, if_pos]
        refine ⟨?_, hmore, ?_, .inl hkind, position_current rfl ?_, ?_⟩
        · simp [hvalid.attempt]
        · simp
        · simp [WorkflowRun.currentMatches, WorkflowRun.attached, WorkflowRun.setStep, hrun, hkind]
        · exact validateResult_of_open (by simp) (hvalid.no_result le_rfl)
      · have hsame : Effect.onStep w (.attachJob jobId now) index old = old := by
          simp [Effect.onStep, (Nat.ne_of_lt hlt).symm]
        rw [hsame]
        have hopen : w.status ≠ .cancelled := by simp [hrun]
        exact hvalid.of_later hlt hlt hopen hopen
    | @completeTask result now step hrun hstep hrunning hsize =>
      refine hvalid.advanced hold hi (by simp [hrun]) (by rw [advanced_eq]) (by rw [advanced_eq]) ?_
      rintro rfl
      obtain ⟨hkind, _⟩ := running_current hvalid hrun
      simp [WorkflowRun.resultMatches, hkind, hsize]
    | @needsReview error now step hrun hstep hopen herror =>
      rcases hi.eq_or_lt with rfl | hlt
      · obtain ⟨hkind, _⟩ := running_current hvalid hrun
        simp only [Effect.onStep, if_pos]
        refine hvalid.of_status le_rfl (by simp) (position_current rfl ?_)
        simp [WorkflowRun.currentMatches, WorkflowRun.reviewed, hkind]
      · have hsame : Effect.onStep w (.needsReview error now) index old = old := by
          simp [Effect.onStep, (Nat.ne_of_lt hlt).symm]
        rw [hsame]
        exact hvalid.of_later hlt hlt (by simp [hrun]) (by simp [WorkflowRun.reviewed])
    | @resume request now step hfresh hrev hrequest hcount hawaits hstep hretry =>
      have hopen : w.status ≠ .cancelled := by
        intro hc
        cases ha : request.action <;> simp [WorkflowRun.awaits, ha, hc] at hawaits
      by_cases haction : request.action = .retry
      · rcases hi.eq_or_lt with rfl | hlt
        · have hreview : w.status = .needsReview := by simpa [WorkflowRun.awaits, haction] using hawaits
          have hm := hvalid.current
          simp only [WorkflowRun.currentMatches, hreview, Bool.and_eq_true, beq_iff_eq] at hm
          simp only [Effect.onStep, if_pos haction, if_pos]
          refine ⟨hvalid.attempt, hvalid.bound, by simp, .inl hm.1, position_current ?_ ?_, ?_⟩
          · simp [WorkflowRun.decided, haction, WorkflowRun.setStep]
          · simp [WorkflowRun.currentMatches, WorkflowRun.decided, haction, hm.1]
          · exact validateResult_of_open (by simp) (hvalid.no_result le_rfl)
        · have hsame : Effect.onStep w (.resume request now) index old = old := by
            simp [Effect.onStep, haction, (Nat.ne_of_lt hlt).symm]
          rw [hsame]
          refine hvalid.of_later hlt ?_ hopen ?_
          · simpa [WorkflowRun.decided, haction, WorkflowRun.setStep] using hlt
          · simp [WorkflowRun.decided, haction]
      · have hadv : Effect.onStep w (.resume request now) index old =
            advancedStep w.currentStep request.value index old := by simp [Effect.onStep, haction]
        rw [hadv]
        refine hvalid.advanced hold hi hopen ?_ ?_ ?_
        · simp [WorkflowRun.decided, haction, advanced_eq]
        · simp [WorkflowRun.decided, haction, advanced_eq]
        · rintro rfl
          exact request_result hrequest haction hvalid.current hawaits
    | cancel hopen hleft =>
      simp only [Effect.onStep, if_pos hi]
      refine hvalid.of_status hi (by simp) ?_
      rcases hi.eq_or_lt with rfl | hlt
      · exact position_current rfl (by simp [WorkflowRun.currentMatches, WorkflowRun.cancelled])
      · rw [WorkflowRun.validatePosition, if_neg (by simp only [WorkflowRun.cancelled]; omega),
          if_pos (by simpa only [WorkflowRun.cancelled] using hlt)]
        exact ensure_eq_ok.mpr ⟨rfl, (hvalid.later hlt).2⟩

/-! ## The jobs after a call -/

theorem attached_jobs_perm {steps : List WorkflowStep} {i : ℕ} (hi : i < steps.length) {f : WorkflowStep → WorkflowStep}
    {jobId : String} (hf : ∀ step, (f step).attempts = step.attempts ++ [jobId]) :
    ((steps.modify i f).flatMap (·.attempts)).Perm (jobId :: steps.flatMap (·.attempts)) := by
  induction steps generalizing i with
  | nil => simp at hi
  | cons step steps ih =>
    cases i with
    | zero =>
      simp only [List.modify_zero_cons, List.flatMap_cons, hf, List.append_assoc, List.singleton_append]
      exact List.perm_middle
    | succ i =>
      simp only [List.modify_succ_cons, List.flatMap_cons]
      have hrest := (ih (by simpa using hi)).append_left step.attempts
      exact hrest.trans List.perm_middle

theorem Effect.jobs (h : Effect w call w') :
    w'.steps.flatMap (·.attempts) = w.steps.flatMap (·.attempts) ∨
      ∃ jobId, validateReference jobId "workflow job ID" = .ok () ∧ jobId ∉ w.steps.flatMap (·.attempts) ∧
        (w'.steps.flatMap (·.attempts)).Perm (jobId :: w.steps.flatMap (·.attempts)) := by
  have hsame : (∀ i step, (Effect.onStep w call i step).attempts = step.attempts) →
      w'.steps.flatMap (·.attempts) = w.steps.flatMap (·.attempts) := by
    intro hatt
    rw [h.steps_eq, List.flatMap_def, List.flatMap_def, map_mapIdx_eq hatt]
  cases h with
  | @attachJob jobId now step href hrun hstep hpending hmore hnew =>
    have hlt := (List.getElem?_eq_some_iff.mp hstep).1
    refine .inr ⟨jobId, href, ?_, attached_jobs_perm hlt fun _ => rfl⟩
    rw [List.mem_flatMap]
    rintro ⟨other, hother, hjob⟩
    exact hnew other hother hjob
  | completeTask => exact .inl (hsame fun i step => (advancedStep_spec _ _ i step).2.2.2.2)
  | needsReview =>
    refine .inl (hsame fun i step => ?_)
    simp only [Effect.onStep]
    split_ifs <;> rfl
  | @resume request now =>
    refine .inl (hsame fun i step => ?_)
    simp only [Effect.onStep]
    split_ifs
    · rfl
    · rfl
    · exact (advancedStep_spec _ _ i step).2.2.2.2
  | cancel =>
    refine .inl (hsame fun i step => ?_)
    simp only [Effect.onStep]
    split_ifs <;> rfl

/-! ## The status after a call -/

theorem LocallyValid.current_lt (hv : LocallyValid w) (h : w.status ≠ .completed) : w.currentStep < w.steps.length :=
  lt_of_le_of_ne hv.current fun he => h (hv.completed.mpr he)

theorem Effect.status (hv : LocallyValid w) (h : Effect w call w') :
    w'.currentStep ≤ w'.steps.length ∧ (w'.status = .completed ↔ w'.currentStep = w'.steps.length) ∧
      WorkflowRun.errorMatches w'.error w'.status = true := by
  have hlen : w'.steps.length = w.steps.length := by simp [h.steps_eq]
  rw [hlen]
  -- a run that has not left its step, and one whose step was completed
  have hstay : ∀ {status : WorkflowStatus}, w.currentStep < w.steps.length → status ≠ .completed →
      (status = .completed ↔ w.currentStep = w.steps.length) := fun hlt hne => by
    constructor
    · exact fun hs => absurd hs hne
    · omega
  have hmove : w.currentStep < w.steps.length →
      (statusAt w.steps (w.currentStep + 1) = .completed ↔ w.currentStep + 1 = w.steps.length) := fun hlt => by
    rw [statusAt_eq_completed]
    omega
  have hnone : WorkflowRun.errorMatches none (statusAt w.steps (w.currentStep + 1)) = true := by
    simp [WorkflowRun.errorMatches, statusAt_ne_needsReview]
  cases h with
  | @attachJob jobId now step href hrun hstep hpending hmore hnew =>
    have hlt := (List.getElem?_eq_some_iff.mp hstep).1
    exact ⟨hlt.le, hstay hlt (by simp [WorkflowRun.attached, WorkflowRun.setStep, hrun]), hv.error⟩
  | @completeTask result now step hrun hstep hrunning hsize =>
    have hlt := (List.getElem?_eq_some_iff.mp hstep).1
    rw [advanced_eq, no_error hv (by simp [hrun])]
    exact ⟨hlt, hmove hlt, hnone⟩
  | @needsReview error now step hrun hstep hopen herror =>
    have hlt := (List.getElem?_eq_some_iff.mp hstep).1
    refine ⟨hlt.le, hstay hlt (by simp [WorkflowRun.reviewed]), ?_⟩
    simp [WorkflowRun.errorMatches, WorkflowRun.reviewed, herror.1, herror.2]
  | @resume request now step hfresh hrev hrequest hcount hawaits hstep hretry =>
    have hlt := (List.getElem?_eq_some_iff.mp hstep).1
    unfold WorkflowRun.decided
    by_cases haction : request.action = .retry
    · rw [if_pos haction]
      exact ⟨hlt.le, hstay hlt (by simp), rfl⟩
    · rw [if_neg haction, advanced_eq]
      exact ⟨hlt, hmove hlt, hnone⟩
  | cancel hopen hleft =>
    have hlt := hv.current_lt hleft
    exact ⟨hlt.le, hstay hlt (by simp [WorkflowRun.cancelled]), rfl⟩

theorem Effect.locallyValid (hv : LocallyValid w) (hnow : w.updatedAtMs ≤ call.now) (h : Effect w call w') :
    LocallyValid w' := by
  obtain ⟨hcur, hcomp, herr⟩ := h.status hv
  refine hv.follows h.follows hnow hcur hcomp herr ?_ ?_ fun index step hstep => h.stepValid hv hstep
  · rcases h.jobs with hsame | ⟨jobId, _, hnew, hperm⟩
    · rw [hsame]
      exact hv.jobs
    · exact hperm.nodup_iff.mpr (List.nodup_cons.mpr ⟨hnew, hv.jobs⟩)
  · rcases h.jobs with hsame | ⟨jobId, href, _, hperm⟩
    · rw [hsame]
      exact hv.references
    · intro other hother
      rcases List.mem_cons.mp (hperm.mem_iff.mp hother) with rfl | hother
      · exact href
      · exact hv.references other hother

/-! ## The replay goes on -/

/-- The replay state `s` is that of an open run. -/
structure Describes (w : WorkflowRun) (s : ReplayState) (step : WorkflowStep) : Prop where
  decision : s.decision = w.decisions.length
  current : s.step = w.currentStep
  revision : s.revision = w.revision
  found : w.steps[s.step]? = some step
  phase : step.status = s.phase
  attempt : s.attempt = step.attempt
  job : if s.attached then step.jobId = step.attempts.getLast? else step.jobId = none

theorem Describes.current_step {old : WorkflowStep} (h : Describes w s step)
    (hold : w.steps[w.currentStep]? = some old) : step = old := by
  have hfound := h.found
  rw [h.current, hold, Option.some.injEq] at hfound
  exact hfound.symm

theorem replayMatchesAttempt_eq (hstep : w.steps[s.step]? = some step) :
    w.replayMatchesAttempt s = true ↔
      s.attempt = step.attempt ∧ (if s.attached then step.jobId = step.attempts.getLast? else step.jobId = none) := by
  unfold WorkflowRun.replayMatchesAttempt
  rw [hstep]
  cases s.attached <;> simp

theorem Describes.accepts (h : Describes w s step) (hopen : w.status ≠ .cancelled) (hleft : w.status ≠ .completed) :
    w.replayAccepts s = true := by
  have hatt := (replayMatchesAttempt_eq h.found).mpr ⟨h.attempt, h.job⟩
  have hfound := h.found
  rw [h.current] at hfound
  simp [WorkflowRun.replayAccepts, WorkflowRun.replayMatchesCurrent, hopen, hleft, h.decision, h.revision, hatt, hfound,
    h.phase, h.current]

theorem describes_of_accepts (hacc : w.replayAccepts s = true) (hopen : w.status ≠ .cancelled)
    (hleft : w.status ≠ .completed) : ∃ step, Describes w s step := by
  simp only [WorkflowRun.replayAccepts, WorkflowRun.replayMatchesCurrent, if_neg hleft, Bool.and_eq_true,
    Bool.or_eq_true, beq_iff_eq, hopen, false_and, or_false, if_false] at hacc
  obtain ⟨⟨hdec, hcur⟩, hrev, hatt, hphase⟩ := hacc
  obtain ⟨step, hstep, hphase⟩ := (Option.any_eq_true _ _).mp hphase
  obtain ⟨hatt, hjob⟩ := (replayMatchesAttempt_eq hstep).mp hatt
  exact ⟨step, hdec, hcur, hrev, hstep, by simpa using hphase, hatt, hjob⟩

theorem accepts_advance (hv : LocallyValid w) (hopen : w.status ≠ .cancelled) (hcur : w.currentStep = s.step + 1)
    (hdec : s.decision = w.decisions.length) (hrev : s.revision = w.revision)
    (hfresh : ∀ step, w.steps[s.step + 1]? = some step →
      step.status = initialPhase step.kind ∧ step.attempt = 0 ∧ step.jobId = none) :
    w.replayAccepts (w.replayAdvance s) = true := by
  by_cases hdone : w.status = .completed
  · have hend := hv.completed.mp hdone
    simp [WorkflowRun.replayAccepts, WorkflowRun.replayMatchesCurrent, WorkflowRun.replayAdvance, hdone, hdec, hrev,
      hcur, ← hend]
  · have hlt := hv.current_lt hdone
    obtain ⟨step, hstep⟩ : ∃ step, w.steps[s.step + 1]? = some step := by
      rw [← hcur]
      exact ⟨_, List.getElem?_eq_getElem hlt⟩
    obtain ⟨hstatus, hatt, hjob⟩ := hfresh step hstep
    have hdesc : Describes w (w.replayAdvance s) step := by
      refine ⟨hdec, hcur.symm, hrev, hstep, ?_, hatt.symm, ?_⟩
      · simp [WorkflowRun.replayAdvance, hstep, hstatus]
      · simp [WorkflowRun.replayAdvance, hjob]
    exact hdesc.accepts hopen hdone

theorem Effect.not_ended (h : Effect w call w') : w.status ≠ .cancelled ∧ w.status ≠ .completed := by
  cases h with
  | attachJob href hrun => simp [hrun]
  | completeTask hrun => simp [hrun]
  | needsReview hrun => simp [hrun]
  | @resume request now step hfresh hrev hrequest hcount hawaits =>
    constructor
    · intro hs
      cases ha : request.action <;> simp [WorkflowRun.awaits, ha, hs] at hawaits
    · intro hs
      cases ha : request.action <;> simp [WorkflowRun.awaits, ha, hs] at hawaits
  | cancel hopen hleft => exact ⟨hopen, hleft⟩

theorem Effect.replay (hv : LocallyValid w) (hnow : w.updatedAtMs ≤ call.now) (hnext : w.revision + 1 < 2 ^ 64)
    (h : Effect w call w') (hs : Describes w s step) :
    w'.replayAccepts s = true ∨ ∃ s', Replays w' s s' ∧ w'.replayAccepts s' = true := by
  have hv' := h.locallyValid hv hnow
  have hf := h.follows
  have hget := h.getElem?_steps s.step
  have hvalid := hv.steps _ _ hs.found
  have hrev : s.revision < w'.revision := by
    rw [hf.revision, hs.revision]
    omega
  have hlast : w'.decisions = w.decisions → NoDecision w' s := by
    intro hd d hd'
    rw [hd, hs.decision, List.getElem?_eq_none_iff.mpr le_rfl] at hd'
    cases hd'
  rw [hs.found, Option.map_some] at hget
  -- the step after the current one, in a run whose current step was completed
  have hfresh : ∀ {result : Option String}, (∀ i old, Effect.onStep w call i old = advancedStep w.currentStep result i old) →
      ∀ next, w'.steps[s.step + 1]? = some next →
        next.status = initialPhase next.kind ∧ next.attempt = 0 ∧ next.jobId = none := by
    intro result hadv next hnext
    rw [h.getElem?_steps, Option.map_eq_some_iff] at hnext
    obtain ⟨old, hold, rfl⟩ := hnext
    have hlater := (hv.steps _ _ hold).later (by rw [hs.current]; omega)
    rw [hadv, hs.current, advancedStep, if_neg (by omega), if_pos rfl]
    exact ⟨rfl, hlater.2⟩
  cases h with
  | @attachJob jobId now old href hrun hstep hpending hmore hnew =>
    obtain rfl := hs.current_step hstep
    simp only [Effect.onStep, hs.current, if_pos] at hget
    refine .inr ⟨_, .attach (hlast rfl) hrev (by rw [hs.current]; exact hget) (by rw [← hs.phase, hpending]) ?_, ?_⟩
    · simp [hs.attempt, hvalid.attempt]
    · refine Describes.accepts ⟨hs.decision, hs.current, ?_, by simpa only [hs.current] using hget, rfl, ?_, ?_⟩ ?_ ?_
      · simp [hf.revision, hs.revision]
      · simp [hs.attempt]
      · simp
      · simp [WorkflowRun.attached, WorkflowRun.setStep, hrun]
      · simp [WorkflowRun.attached, WorkflowRun.setStep, hrun]
  | @completeTask result now old hrun hstep hrunning hsize =>
    obtain rfl := hs.current_step hstep
    have hadv := hfresh (fun i old => show Effect.onStep w (.completeTask result now) i old = _ from rfl)
    simp only [Effect.onStep, advancedStep, hs.current, if_pos] at hget
    rw [← hs.current] at hget
    refine .inr ⟨_, .complete (hlast (by rw [advanced_eq])) hrev hget (by rw [← hs.phase, hrunning]) ?_, ?_⟩
    · exact replayCanComplete_iff.mpr ⟨_, hget, rfl, rfl, hs.attempt, hs.job⟩
    · refine accepts_advance hv' ?_ ?_ ?_ ?_ hadv
      · rw [advanced_eq]
        exact statusAt_ne_cancelled _ _
      · simp [advanced_eq, hs.current]
      · simp [advanced_eq, hs.decision]
      · simp [hs.revision]
  | @needsReview error now old hrun hstep hopen herror =>
    obtain rfl := hs.current_step hstep
    simp only [Effect.onStep, hs.current, if_pos] at hget
    refine .inr ⟨_, .review (hlast rfl) hrev (by rw [hs.current]; exact hget) (by rw [← hs.phase]; exact hopen), ?_⟩
    have hdesc : Describes (w.reviewed error now (w.revision + 1))
        { s with revision := s.revision + 1, phase := .needsReview } { step with status := .needsReview } := by
      refine ⟨hs.decision, hs.current, ?_, by simpa only [hs.current] using hget, rfl, hs.attempt, hs.job⟩
      simp [hf.revision, hs.revision]
    exact hdesc.accepts (by simp [WorkflowRun.reviewed]) (by simp [WorkflowRun.reviewed])
  | @resume request now old hfresh' hrev' hrequest hcount hawaits hstep hretry =>
    obtain rfl := hs.current_step hstep
    have hm := (hv.steps _ _ hstep).current
    have hhas : HasDecision (w.decided request now (w.revision + 1)) s
        { stepIndex := w.currentStep, request := request, decidedAtMs := now } :=
      ⟨by simp [WorkflowRun.decided, hs.decision], by rw [hs.revision]; exact hrev', hs.current.symm⟩
    by_cases haction : request.action = .retry
    · have hstatus : w.status = .needsReview := by simpa [WorkflowRun.awaits, haction] using hawaits
      simp only [WorkflowRun.currentMatches, hstatus, Bool.and_eq_true, beq_iff_eq] at hm
      simp only [Effect.onStep, if_pos haction, hs.current, if_pos] at hget
      refine .inr ⟨_, .retry hhas (by rw [hs.current]; exact hget) (by rw [← hs.phase]; exact hm.2) haction ?_, ?_⟩
      · rw [hs.attempt]
        exact hretry haction
      · have hdesc : Describes (w.decided request now (w.revision + 1))
            { s with revision := s.revision + 1, decision := s.decision + 1, phase := .pending, attached := false }
            { step with status := .pending, jobId := none } := by
          refine ⟨?_, ?_, ?_, by simpa only [hs.current] using hget, rfl, hs.attempt, rfl⟩
          · simp [WorkflowRun.decided, hs.decision]
          · simp [WorkflowRun.decided, haction, WorkflowRun.setStep, hs.current]
          · simp [hf.revision, hs.revision]
        exact hdesc.accepts (by simp [WorkflowRun.decided, haction]) (by simp [WorkflowRun.decided, haction])
    · have hadv := hfresh fun i old => show Effect.onStep w (.resume request now) i old =
          advancedStep w.currentStep request.value i old by simp [Effect.onStep, haction]
      simp only [Effect.onStep, if_neg haction, advancedStep, hs.current, if_pos] at hget
      have hphase : Completes s.phase request.action := by
        rw [← hs.phase]
        cases ha : request.action with
        | retry => exact absurd ha haction
        | approve => simp_all [WorkflowRun.awaits, WorkflowRun.currentMatches, Completes]
        | answer => simp_all [WorkflowRun.awaits, WorkflowRun.currentMatches, Completes]
        | resolve => simp_all [WorkflowRun.awaits, WorkflowRun.currentMatches, Completes]
      rw [← hs.current] at hget
      refine .inr ⟨_, .decide hhas hget hphase ?_, ?_⟩
      · exact replayCanComplete_iff.mpr ⟨_, hget, rfl, (outcome_eq hrequest).symm, hs.attempt, hs.job⟩
      · refine accepts_advance hv' ?_ ?_ ?_ ?_ hadv
        · simp [WorkflowRun.decided, haction, advanced_eq, statusAt_ne_cancelled]
        · simp [WorkflowRun.decided, haction, advanced_eq, hs.current]
        · simp [WorkflowRun.decided, hs.decision]
        · simp [hf.revision, hs.revision]
  | @cancel now hopen hleft =>
    left
    simp only [Effect.onStep, hs.current, if_pos le_rfl] at hget
    rw [← hs.current] at hget
    have hatt : (w.cancelled now (w.revision + 1)).replayMatchesAttempt s = true :=
      (replayMatchesAttempt_eq hget).mpr ⟨hs.attempt, hs.job⟩
    have hadd : checkedAdd 64 s.revision 1 = some (w.revision + 1) := by
      rw [hs.revision]
      exact checkedAdd_eq_some.mpr ⟨hnext, rfl⟩
    simp only [WorkflowRun.replayAccepts, Bool.and_eq_true, Bool.or_eq_true, beq_iff_eq]
    exact ⟨⟨hs.decision, hs.current⟩, .inr ⟨⟨rfl, hadd⟩, hatt⟩⟩

theorem Effect.validate (ha : Admits w call) (h : Effect w call w') : w'.validate = .ok () := by
  obtain ⟨hval, hnow, hnext⟩ := ha
  obtain ⟨hv, first, s, hfirst, hpath, hle, hacc⟩ := validate_eq_ok.mp hval
  obtain ⟨hopen, hleft⟩ := h.not_ended
  obtain ⟨step, hs⟩ := describes_of_accepts hacc hopen hleft
  have hon := h.onwards hv
  obtain ⟨first', hfirst', hkind, _⟩ := hon.steps 0 first hfirst
  have hstart : WorkflowRun.replayStart first' = WorkflowRun.replayStart first := by
    simp [WorkflowRun.replayStart, hkind]
  have hpath' : Path w' first' s := by
    unfold Path
    rw [hstart]
    exact hpath.onwards hon hle
  have hrev := h.follows.revision
  refine validate_eq_ok.mpr ⟨h.locallyValid hv hnow, first', ?_⟩
  rcases h.replay hv hnow hnext hs with hacc' | ⟨s', hstep, hacc'⟩
  · exact ⟨s, hfirst', hpath', by omega, hacc'⟩
  · have hrev' := hstep.revision_eq
    have hcur := hs.revision
    exact ⟨s', hfirst', .tail hpath' hstep, by omega, hacc'⟩

end AnimaCore.Workflows
