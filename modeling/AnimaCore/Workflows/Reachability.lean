import AnimaCore.Workflows.Validity

/-!
# AnimaCore.Workflows.Reachability — validation is reachability

`Reachable.validate` is the invariant of `Effect.validate` over a history.  For the converse, a replay of a saved run is
turned into a history: `replayed w s now error` is the run the replay has reached in state `s`, and each event of the
replay is one successful call on it (`Replays.reachable`).  Unrecorded events are dated as early as the recorded decisions
allow.
-/

namespace AnimaCore.Workflows

open Lib

variable {w w' : WorkflowRun} {call : Call} {s s' : ReplayState} {step : WorkflowStep} {first : WorkflowStep}

/-! ## A definition that passes its checks can be started -/

/-- The run `new` makes. -/
def started (id agentId : String) (input : WorkflowInput) (now : ℕ) : WorkflowRun :=
  (WorkflowRun.unstarted id agentId input now).activateCurrentStep

theorem definition_bounds {input : WorkflowInput} (h : validateDefinition input = .ok ()) :
    0 < input.steps.length ∧ input.steps.length ≤ maxWorkflowSteps := by
  simp only [validateDefinition, bind_eq_ok, ensure_eq_ok] at h
  obtain ⟨_, ⟨hne, hle⟩, _⟩ := h
  exact ⟨List.length_pos_of_ne_nil hne, hle⟩

section

variable (id agentId : String) (input : WorkflowInput) (now : ℕ)

/-- The step at `index` of a run that was just started. -/
def startedStep (index : ℕ) (spec : WorkflowStepSpec) : WorkflowStep :=
  { WorkflowRun.freshStep spec with status := if index = 0 then initialPhase spec.kind else .pending }

theorem started_steps : (started id agentId input now).steps = input.steps.mapIdx startedStep := by
  rw [started, activateCurrentStep_eq]
  apply List.ext_getElem?
  intro i
  simp only [WorkflowRun.unstarted, List.getElem?_modify, List.getElem?_map, List.getElem?_mapIdx]
  cases input.steps[i]? with
  | none => rfl
  | some spec =>
    by_cases hi : i = 0
    · subst hi
      rfl
    · have hi' : 0 ≠ i := Ne.symm hi
      simp [startedStep, WorkflowRun.freshStep, hi, hi']

theorem started_eq :
    started id agentId input now =
      { WorkflowRun.unstarted id agentId input now with
        status := statusAt (input.steps.map WorkflowRun.freshStep) 0
        steps := input.steps.mapIdx startedStep } := by
  rw [← started_steps id agentId input now, started, activateCurrentStep_eq]
  rfl

theorem started_definition : (started id agentId input now).definition = input := by
  have hsteps : (input.steps.mapIdx startedStep).map (fun step =>
      ({ id := step.id, title := step.title, kind := step.kind, prompt := step.prompt } : WorkflowStepSpec)) =
        input.steps := by
    apply List.ext_getElem?
    intro i
    cases hi : input.steps[i]? with
    | none => simp [hi]
    | some spec => simp [hi, startedStep, WorkflowRun.freshStep]
  rw [started_eq, WorkflowRun.definition]
  simp only [hsteps, WorkflowRun.unstarted]

variable {id agentId input}

theorem startedStep_valid {index : ℕ} {spec : WorkflowStepSpec} (hspec : input.steps[index]? = some spec) :
    StepValid (started id agentId input now) index (startedStep index spec) := by
  refine ⟨rfl, Nat.zero_le _, ?_, .inr ⟨rfl, rfl⟩, ?_, ?_⟩
  · intro jobId h
    cases h
  · rw [started_eq]
    by_cases hi : index = 0
    · subst hi
      refine position_current rfl ?_
      have hstatus : statusAt (input.steps.map WorkflowRun.freshStep) 0 = (WorkflowRun.activation spec.kind).1 := by
        simp [statusAt, hspec, WorkflowRun.freshStep]
      cases hk : spec.kind <;>
        simp [WorkflowRun.currentMatches, hstatus, hk, startedStep, WorkflowRun.freshStep, WorkflowRun.activation,
          initialPhase]
    · rw [WorkflowRun.validatePosition, if_neg (by simp [WorkflowRun.unstarted]),
        if_pos (by simp only [WorkflowRun.unstarted]; omega), if_neg (statusAt_ne_cancelled _ _)]
      exact ensure_eq_ok.mpr ⟨by simp [startedStep, hi], rfl, rfl⟩
  · refine validateResult_of_open ?_ rfl
    unfold startedStep
    cases spec.kind <;> by_cases hi : index = 0 <;> simp [hi, initialPhase]

theorem started_locallyValid (hid : validateReference id "workflow ID" = .ok ())
    (hagent : validateReference agentId "agent ID" = .ok ()) (hdef : validateDefinition input = .ok ()) :
    LocallyValid (started id agentId input now) := by
  obtain ⟨hpos, _⟩ := definition_bounds hdef
  have hjobs : (started id agentId input now).steps.flatMap (·.attempts) = [] := by
    rw [started_eq, List.flatMap_eq_nil_iff]
    intro step hstep
    obtain ⟨i, spec, _, rfl⟩ := List.mem_mapIdx.mp hstep
    rfl
  have hsteps : ∀ index step, (started id agentId input now).steps[index]? = some step →
      StepValid (started id agentId input now) index step := by
    intro index step hstep
    rw [started_steps, List.getElem?_mapIdx, Option.map_eq_some_iff] at hstep
    obtain ⟨spec, hspec, rfl⟩ := hstep
    exact startedStep_valid now hspec
  refine ⟨?_, ?_, ?_, ?_, ?_, ?_, ?_, ?_, ?_, ?_, by rw [hjobs]; exact List.nodup_nil, by rw [hjobs]; simp, hsteps, ?_,
    ?_, ?_⟩
  · rw [started_eq]
    rfl
  · rw [started_eq]
    exact hid
  · rw [started_eq]
    exact hagent
  · rw [started_definition]
    exact hdef
  · rw [started_eq]
    exact one_ne_zero
  · rw [started_eq]
    exact le_rfl
  · rw [started_eq]
    exact fun _ => rfl
  · rw [started_eq]
    exact Nat.zero_le _
  · rw [started_eq]
    simp only [statusAt_eq_completed, List.length_map, WorkflowRun.unstarted, List.length_mapIdx]
    omega
  · rw [started_eq]
    simp [WorkflowRun.errorMatches, WorkflowRun.unstarted, statusAt_ne_needsReview]
  · rw [started_eq]
    exact Nat.zero_le _
  · rw [started_eq]
    simp [WorkflowRun.unstarted]
  · rw [started_eq]
    exact List.Pairwise.nil

theorem started_validate (hid : validateReference id "workflow ID" = .ok ())
    (hagent : validateReference agentId "agent ID" = .ok ()) (hdef : validateDefinition input = .ok ()) :
    (started id agentId input now).validate = .ok () := by
  have hv := started_locallyValid now hid hagent hdef
  obtain ⟨hpos, _⟩ := definition_bounds hdef
  have hspec : input.steps[0]? = some input.steps[0] := List.getElem?_eq_getElem hpos
  set spec := input.steps[0]
  have hfirst : (started id agentId input now).steps[0]? = some (startedStep 0 spec) := by
    rw [started_steps, List.getElem?_mapIdx, hspec]
    rfl
  refine validate_eq_ok.mpr ⟨hv, _, _, hfirst, .refl, ?_, ?_⟩
  · rw [started_eq]
    exact le_rfl
  · have hdesc : Describes (started id agentId input now) (WorkflowRun.replayStart (startedStep 0 spec))
        (startedStep 0 spec) := by
      rw [started_eq] at hfirst ⊢
      exact ⟨rfl, rfl, rfl, hfirst, rfl, rfl, rfl⟩
    have hstatus : (started id agentId input now).status = (WorkflowRun.activation spec.kind).1 := by
      rw [started_eq]
      simp [statusAt, hspec, WorkflowRun.freshStep]
    refine hdesc.accepts ?_ ?_
    · rw [hstatus]
      cases spec.kind <;> simp [WorkflowRun.activation]
    · rw [hstatus]
      cases spec.kind <;> simp [WorkflowRun.activation]

theorem new_eq_ok :
    WorkflowRun.new id agentId input now = .ok w ↔
      validateReference id "workflow ID" = .ok () ∧ validateReference agentId "agent ID" = .ok () ∧
        validateDefinition input = .ok () ∧ w = started id agentId input now := by
  simp only [WorkflowRun.new, bind_eq_ok]
  constructor
  · rintro ⟨_, hdef, _, hval, h⟩
    cases h
    have hv := (validate_eq_ok.mp hval).1
    have hstart := started_eq id agentId input now
    rw [started] at hstart
    rw [hstart] at hv
    exact ⟨hv.id, hv.agent, hdef, rfl⟩
  · rintro ⟨hid, hagent, hdef, rfl⟩
    exact ⟨(), hdef, (), started_validate now hid hagent hdef, rfl⟩

end

/-! ## A history keeps a run valid -/

theorem Reachable.validate (h : Reachable w) : w.validate = .ok () := by
  obtain ⟨id, agentId, input, now, w₀, hnew, hreach⟩ := h
  obtain ⟨hid, hagent, hdef, rfl⟩ := (new_eq_ok now).mp hnew
  refine hreach.invariant (P := fun v => v.validate = .ok ()) (started_validate now hid hagent hdef) ?_
  intro v call _ hv _
  rcases step_cases v call with hsame | ⟨_, hadmits, heffect⟩
  · rw [hsame]
    exact hv
  · exact heffect.validate hadmits

theorem Reachable.next (h : Reachable w) (ha : w.updatedAtMs ≤ call.now) (hrev : w.revision + 1 < 2 ^ 64)
    (heffect : Effect w call w') : Reachable w' := by
  obtain ⟨id, agentId, input, now, w₀, hnew, hreach⟩ := id h
  have hcall := method_eq_changed.mpr ⟨⟨h.validate, ha, hrev⟩, heffect⟩
  have hstep : Workflows.step w call = w' := by rw [Workflows.step, hcall]
  refine ⟨id, agentId, input, now, w₀, hnew, ?_⟩
  rw [← hstep]
  exact hreach.next call ⟨true, by rw [hcall]⟩

/-! ## The run a replay has reached -/

/-- The status of a run whose current step has this status. -/
def runStatus : WorkflowStepStatus → WorkflowStatus
  | .pending | .running => .running
  | .awaitingApproval => .awaitingApproval
  | .awaitingInput => .awaitingInput
  | .needsReview => .needsReview
  | .completed => .completed
  | .cancelled => .cancelled

/-- The step at `index` of the run a replay has reached: the steps before are as saved, those after are untouched. -/
def replayedStep (s : ReplayState) (index : ℕ) (step : WorkflowStep) : WorkflowStep :=
  if index < s.step then step
  else if index = s.step then
    { step with
      status := s.phase
      attempt := s.attempt
      attempts := step.attempts.take s.attempt
      jobId := if s.attached then (step.attempts.take s.attempt).getLast? else none
      result := none }
  else { step with status := .pending, attempt := 0, attempts := [], jobId := none, result := none }

/-- The run a replay of `w` has reached. -/
def replayed (w : WorkflowRun) (s : ReplayState) (now : ℕ) (error : Option String) : WorkflowRun :=
  { w with
    status := runStatus s.phase
    revision := s.revision
    currentStep := s.step
    steps := w.steps.mapIdx (replayedStep s)
    decisions := w.decisions.take s.decision
    updatedAtMs := now
    error := error }

/-- The time of the last decision replayed, or that of the creation. -/
def lastTime (w : WorkflowRun) (s : ReplayState) : ℕ :=
  ((w.decisions.take s.decision).getLast?.map (·.decidedAtMs)).getD w.createdAtMs

/-- The times the last event of a replay may have. -/
structure TimeOk (w : WorkflowRun) (s : ReplayState) (now : ℕ) : Prop where
  after : lastTime w s ≤ now
  unchanged : s.revision = 1 → now = w.createdAtMs
  decided : ∀ d ∈ w.decisions.take s.decision, d.request.revision + 1 = s.revision → now = d.decidedAtMs

def ErrorOk (s : ReplayState) (error : Option String) : Prop :=
  if s.phase = .needsReview then
    ∃ text, error = some text ∧ trimmedEmpty text = false ∧ text.utf8ByteSize ≤ maxWorkflowResultBytes
  else error = none

structure OnTrack (w : WorkflowRun) (s : ReplayState) : Prop where
  inside : s.step ≤ w.steps.length
  phase : ∀ step, w.steps[s.step]? = some step →
    s.phase = initialPhase step.kind ∨ (step.kind = .task ∧ (s.phase = .running ∨ s.phase = .needsReview))
  past : w.steps.length ≤ s.step → s.phase = .completed
  attempt : ∀ step, w.steps[s.step]? = some step → s.attempt ≤ step.attempts.length
  decided : ∀ d ∈ w.decisions.take s.decision, d.request.revision < s.revision
  positive : 1 ≤ s.revision
  budget : s.revision + rank w s ≤ 4 * w.steps.length + 4 * w.decisions.length + 4

theorem onTrack_start (hfirst : w.steps[0]? = some first) : OnTrack w (WorkflowRun.replayStart first) := by
  have hlt := (List.getElem?_eq_some_iff.mp hfirst).1
  refine ⟨Nat.zero_le _, ?_, ?_, ?_, ?_, le_rfl, ?_⟩
  · intro step hstep
    obtain rfl : first = step := Option.some.inj (hfirst.symm.trans hstep)
    exact .inl rfl
  · intro hle
    simp only [WorkflowRun.replayStart] at hle
    omega
  · intro step _
    exact Nat.zero_le _
  · intro d hd
    simp [WorkflowRun.replayStart] at hd
  · have hle := phaseRank_le (WorkflowRun.replayStart first).phase
    simp only [rank, WorkflowRun.replayStart] at hle ⊢
    omega

theorem OnTrack.advance {decision : ℕ} (h : OnTrack w s) (hstep : w.steps[s.step]? = some step)
    (hdec : ∀ d ∈ w.decisions.take decision, d.request.revision < s.revision + 1)
    (hbudget : s.revision + 1 + rank w (w.replayAdvance { s with revision := s.revision + 1, decision := decision }) ≤
      4 * w.steps.length + 4 * w.decisions.length + 4) :
    OnTrack w (w.replayAdvance { s with revision := s.revision + 1, decision := decision }) := by
  have hlt := (List.getElem?_eq_some_iff.mp hstep).1
  refine ⟨hlt, ?_, ?_, ?_, hdec, Nat.le_add_left _ _, hbudget⟩
  · intro next hnext
    simp only [WorkflowRun.replayAdvance] at hnext ⊢
    exact .inl (by simp [hnext])
  · intro hle
    simp only [WorkflowRun.replayAdvance] at hle ⊢
    simp [List.getElem?_eq_none_iff.mpr hle]
  · intro next _
    exact Nat.zero_le _

theorem OnTrack.task (h : OnTrack w s) (hstep : w.steps[s.step]? = some step)
    (hphase : s.phase = .pending ∨ s.phase = .running ∨ s.phase = .needsReview) : step.kind = .task := by
  rcases h.phase step hstep with hinit | ⟨htask, _⟩
  · cases hk : step.kind with
    | task => rfl
    | approval => rcases hphase with hp | hp | hp <;> simp [hinit, hk, initialPhase] at hp
    | input => rcases hphase with hp | hp | hp <;> simp [hinit, hk, initialPhase] at hp
  · exact htask

theorem OnTrack.stay (hstep : w.steps[s.step]? = some step) (hsame : s'.step = s.step)
    (hphase : s'.phase = initialPhase step.kind ∨ (step.kind = .task ∧ (s'.phase = .running ∨ s'.phase = .needsReview)))
    (hatt : s'.attempt ≤ step.attempts.length)
    (hdec : ∀ d ∈ w.decisions.take s'.decision, d.request.revision < s'.revision) (hpos : 1 ≤ s'.revision)
    (hbudget : s'.revision + rank w s' ≤ 4 * w.steps.length + 4 * w.decisions.length + 4) : OnTrack w s' := by
  have hlt := (List.getElem?_eq_some_iff.mp hstep).1
  refine ⟨by omega, ?_, by omega, ?_, hdec, hpos, hbudget⟩
  · intro other hother
    rw [hsame, hstep, Option.some.injEq] at hother
    exact hother ▸ hphase
  · intro other hother
    rw [hsame, hstep, Option.some.injEq] at hother
    exact hother ▸ hatt

theorem Replays.onTrack (h : Replays w s s') (hs : OnTrack w s) : OnTrack w s' := by
  have hbudget : s'.revision + rank w s' ≤ 4 * w.steps.length + 4 * w.decisions.length + 4 := by
    have h1 := h.rank_lt
    have h2 := h.revision_eq
    have h3 := hs.budget
    omega
  have hkeep : ∀ d ∈ w.decisions.take s.decision, d.request.revision < s.revision + 1 := fun d hd =>
    (hs.decided d hd).trans (Nat.lt_succ_self _)
  have hadd : ∀ {d : WorkflowDecision}, HasDecision w s d →
      ∀ d' ∈ w.decisions.take (s.decision + 1), d'.request.revision < s.revision + 1 := by
    intro d hd d' hd'
    rw [List.take_add_one, hd.1, List.mem_append] at hd'
    rcases hd' with hd' | hd'
    · exact hkeep d' hd'
    · simp only [Option.toList_some, List.mem_singleton] at hd'
      rw [hd', hd.2.1]
      exact Nat.lt_succ_self _
  cases h with
  | attach hno hrev hstep hphase hmore =>
    have htask := hs.task hstep (.inl hphase)
    exact .stay hstep rfl (.inr ⟨htask, .inl rfl⟩) hmore hkeep (Nat.le_add_left _ _) hbudget
  | review hno hrev hstep hphase =>
    have htask := hs.task hstep (hphase.imp_right .inl)
    exact .stay hstep rfl (.inr ⟨htask, .inr rfl⟩) (hs.attempt _ hstep) hkeep (Nat.le_add_left _ _) hbudget
  | complete hno hrev hstep hphase hcan => exact hs.advance hstep hkeep hbudget
  | retry hd hstep hphase haction hmore =>
    have htask := hs.task hstep (.inr (.inr hphase))
    exact .stay hstep rfl (.inl (by rw [htask]; rfl)) (hs.attempt _ hstep) (hadd hd) (Nat.le_add_left _ _) hbudget
  | decide hd hstep haction hcan => exact hs.advance hstep (hadd hd) hbudget

theorem Path.onTrack (hfirst : w.steps[0]? = some first) (h : Path w first s) : OnTrack w s := by
  induction h with
  | refl => exact onTrack_start hfirst
  | tail _ hstep ih => exact hstep.onTrack ih

/-! ## Times -/

theorem lastTime_eq {d : WorkflowDecision} (hd : HasDecision w s d) (hdec : s'.decision = s.decision + 1) :
    lastTime w s' = d.decidedAtMs := by
  simp [lastTime, hdec, List.take_add_one, hd.1]

theorem LocallyValid.last_decision {n : ℕ} {d e : WorkflowDecision} (hv : LocallyValid w)
    (hd : d ∈ w.decisions.take n) (he : (w.decisions.take n).getLast? = some e) : d = e ∨ Earlier d e := by
  have hord : (w.decisions.take n).Pairwise Earlier := hv.ordered.sublist (List.take_sublist _ _)
  obtain ⟨before, hsplit⟩ := List.getLast?_eq_some_iff.mp he
  rw [hsplit] at hd hord
  rcases List.mem_append.mp hd with hd | hd
  · exact .inr ((List.pairwise_append.mp hord).2.2 d hd e (by simp))
  · exact .inl (List.mem_singleton.mp hd)

theorem OnTrack.timeOk (hv : LocallyValid w) (hs : OnTrack w s) : TimeOk w s (lastTime w s) where
  after := le_rfl
  unchanged := by
    intro hone
    have hnil : w.decisions.take s.decision = [] := by
      refine List.eq_nil_iff_forall_not_mem.mpr fun d hd => ?_
      have hlt := hs.decided d hd
      have hpos := (request_validate_eq_ok.mp (hv.decisions d (List.mem_of_mem_take hd)).request).1
      omega
    simp [lastTime, hnil]
  decided := by
    intro d hd hrev
    cases he : (w.decisions.take s.decision).getLast? with
    | none =>
      rw [List.getLast?_eq_none_iff] at he
      rw [he] at hd
      cases hd
    | some e =>
      have hlt := hs.decided e (List.mem_of_getLast? he)
      rcases hv.last_decision hd he with rfl | hearlier
      · simp [lastTime, he]
      · have := hearlier.1
        omega

theorem Replays.lastTime_le (hv : LocallyValid w) (h : Replays w s s') : lastTime w s ≤ lastTime w s' := by
  have hdecision : ∀ {d : WorkflowDecision}, HasDecision w s d → s'.decision = s.decision + 1 →
      lastTime w s ≤ lastTime w s' := by
    intro d hd hnext
    rw [lastTime_eq hd hnext]
    have hmem : d ∈ w.decisions := List.mem_of_getElem? hd.1
    cases he : (w.decisions.take s.decision).getLast? with
    | none => simpa [lastTime, he] using (hv.decisions d hmem).after
    | some e =>
      have hord : (w.decisions.take (s.decision + 1)).Pairwise Earlier := hv.ordered.sublist (List.take_sublist _ _)
      rw [List.take_add_one, hd.1, List.pairwise_append] at hord
      have hearlier := hord.2.2 e (List.mem_of_getLast? he) d (by simp)
      simpa [lastTime, he] using hearlier.2
  cases h with
  | attach => exact le_rfl
  | review => exact le_rfl
  | complete => exact le_rfl
  | retry hd => exact hdecision hd rfl
  | decide hd => exact hdecision hd rfl

/-! ## One event is one call -/

section

variable {t : ℕ} {e error : Option String}

theorem ErrorOk.none (h : ErrorOk s error) (hphase : s.phase ≠ .needsReview) : error = none := by
  rw [ErrorOk, if_neg hphase] at h
  exact h

theorem ErrorOk.text (h : ErrorOk s error) (hphase : s.phase = .needsReview) :
    ∃ text, error = some text ∧ trimmedEmpty text = false ∧ text.utf8ByteSize ≤ maxWorkflowResultBytes := by
  rw [ErrorOk, if_pos hphase] at h
  exact h

theorem ErrorOk.same (h : ErrorOk s e) (hphase : s.phase ≠ .needsReview) (h' : ErrorOk s' error)
    (hphase' : s'.phase ≠ .needsReview) : e = error := (h.none hphase).trans (h'.none hphase').symm

theorem replayAdvance_phase : (w.replayAdvance s).phase ≠ .needsReview := by
  unfold WorkflowRun.replayAdvance
  cases w.steps[s.step + 1]? with
  | none => simp
  | some step => cases hk : step.kind <;> simp [hk, initialPhase]

theorem replayed_getElem? (i : ℕ) : (replayed w s t e).steps[i]? = w.steps[i]?.map (replayedStep s i) := by
  simp [replayed]

theorem replayedStep_lt {i : ℕ} (h : i < s.step) : replayedStep s i step = step := by
  rw [replayedStep, if_pos h]

theorem replayedStep_self :
    replayedStep s s.step step =
      { step with
        status := s.phase
        attempt := s.attempt
        attempts := step.attempts.take s.attempt
        jobId := if s.attached then (step.attempts.take s.attempt).getLast? else none
        result := none } := by
  rw [replayedStep, if_neg (lt_irrefl _), if_pos rfl]

theorem replayedStep_gt {i : ℕ} (h : s.step < i) :
    replayedStep s i step =
      { step with status := .pending, attempt := 0, attempts := [], jobId := none, result := none } := by
  rw [replayedStep, if_neg (by omega), if_neg (by omega)]

theorem replayed_current (hstep : w.steps[s.step]? = some step) :
    (replayed w s t e).steps[(replayed w s t e).currentStep]? = some (replayedStep s s.step step) := by
  rw [replayed_getElem?]
  exact congrArg _ hstep

theorem statusAt_replayed (i : ℕ) :
    statusAt (replayed w s t e).steps i =
      runStatus ((w.steps[i]?.map fun step => initialPhase step.kind).getD .completed) := by
  rw [statusAt, replayed_getElem?]
  cases w.steps[i]? with
  | none => rfl
  | some step =>
    have hkind : (replayedStep s i step).kind = step.kind := by
      unfold replayedStep
      split_ifs <;> rfl
    cases hk : step.kind <;> simp [hkind, hk, WorkflowRun.activation, initialPhase, runStatus]

theorem Effect.to_replayed (h : Effect (replayed w s t e) call w') (hrev : s'.revision = s.revision + 1)
    (hstatus : w'.status = runStatus s'.phase) (hcur : w'.currentStep = s'.step)
    (hdec : w'.decisions = w.decisions.take s'.decision) (herr : w'.error = error)
    (hsteps : ∀ i step, w.steps[i]? = some step →
      Effect.onStep (replayed w s t e) call i (replayedStep s i step) = replayedStep s' i step) :
    Effect (replayed w s t e) call (replayed w s' call.now error) := by
  have hf := h.follows
  suffices heq : w' = replayed w s' call.now error from heq ▸ h
  apply WorkflowRun.ext
  · exact hf.id
  · exact hf.agentId
  · exact congrArg WorkflowInput.title hf.definition
  · exact congrArg WorkflowInput.requestKey hf.definition
  · exact hstatus
  · exact hf.revision.trans hrev.symm
  · exact hcur
  · apply List.ext_getElem?
    intro i
    rw [h.getElem?_steps, replayed_getElem?, replayed_getElem?]
    cases hi : w.steps[i]? with
    | none => rfl
    | some step => simp [hsteps i step hi]
  · exact hdec
  · exact hf.created
  · exact hf.updated
  · exact herr
  · exact hf.source

theorem replayedStep_completed (hv : LocallyValid w) (hstep : w.steps[s.step]? = some step) {result : Option String}
    (hcan : w.replayCanComplete s result = true) :
    { replayedStep s s.step step with result := result, status := .completed } = step := by
  obtain ⟨saved, hsaved, hdone, hres, hatt, hjob⟩ := replayCanComplete_iff.mp hcan
  obtain rfl : step = saved := Option.some.inj (hstep.symm.trans hsaved)
  have hall : step.attempts.take s.attempt = step.attempts := by
    rw [hatt, (hv.steps _ _ hstep).attempt, List.take_length]
  have hjob' : (if s.attached then step.attempts.getLast? else none) = step.jobId := by
    cases ha : s.attached with
    | false =>
      rw [ha] at hjob
      exact hjob.symm
    | true =>
      rw [ha] at hjob
      exact hjob.symm
  rw [replayedStep_self, hall, hjob', hatt, ← hres, ← hdone]

theorem advancedStep_replayed (hv : LocallyValid w) (hstep : w.steps[s.step]? = some step) {result : Option String}
    (hcan : w.replayCanComplete s result = true) {revision decision i : ℕ} {old : WorkflowStep}
    (hold : w.steps[i]? = some old) :
    advancedStep s.step result i (replayedStep s i old) =
      replayedStep (w.replayAdvance { s with revision := revision, decision := decision }) i old := by
  have hnext : (w.replayAdvance { s with revision := revision, decision := decision }).step = s.step + 1 := rfl
  rcases lt_trichotomy i s.step with hi | rfl | hi
  · rw [advancedStep, if_neg (by omega), if_neg (by omega), replayedStep_lt hi, replayedStep_lt (by omega)]
  · obtain rfl : step = old := Option.some.inj (hstep.symm.trans hold)
    rw [advancedStep, if_pos rfl, replayedStep_completed hv hstep hcan, replayedStep_lt (by omega)]
  · rw [replayedStep_gt hi]
    by_cases hi' : i = s.step + 1
    · subst hi'
      rw [advancedStep, if_neg (by omega), if_pos rfl, ← hnext, replayedStep_self]
      simp [WorkflowRun.replayAdvance, hold]
    · rw [advancedStep, if_neg (by omega), if_neg hi', replayedStep_gt (by omega)]

theorem LocallyValid.job_step (hv : LocallyValid w) {i j : ℕ} {a b : WorkflowStep} {jobId : String}
    (hi : w.steps[i]? = some a) (hj : w.steps[j]? = some b) (ha : jobId ∈ a.attempts) (hb : jobId ∈ b.attempts) :
    i = j := by
  have hpair := List.pairwise_iff_getElem.mp (List.nodup_flatMap.mp hv.jobs).2
  obtain ⟨hi', rfl⟩ := List.getElem?_eq_some_iff.mp hi
  obtain ⟨hj', rfl⟩ := List.getElem?_eq_some_iff.mp hj
  rcases lt_trichotomy i j with hlt | heq | hlt
  · exact absurd hb (hpair i j hi' hj' hlt ha)
  · exact heq
  · exact absurd ha (hpair j i hj' hi' hlt hb)

theorem LocallyValid.job_unused (hv : LocallyValid w) (hstep : w.steps[s.step]? = some step) {jobId : String}
    (hjob : step.attempts[s.attempt]? = some jobId) : ∀ other ∈ (replayed w s t e).steps, jobId ∉ other.attempts := by
  intro other hother hm
  obtain ⟨i, hi⟩ := List.mem_iff_getElem?.mp hother
  rw [replayed_getElem?, Option.map_eq_some_iff] at hi
  obtain ⟨saved, hsaved, rfl⟩ := hi
  have hmem : jobId ∈ step.attempts := List.mem_of_getElem? hjob
  rcases lt_trichotomy i s.step with hlt | rfl | hgt
  · rw [replayedStep_lt hlt] at hm
    exact absurd (hv.job_step hsaved hstep hm hmem) (by omega)
  · obtain rfl : step = saved := Option.some.inj (hstep.symm.trans hsaved)
    rw [replayedStep_self] at hm
    have hnd : step.attempts.Nodup := (List.nodup_flatMap.mp hv.jobs).1 step (List.mem_of_getElem? hstep)
    obtain ⟨k, hk⟩ := List.mem_iff_getElem?.mp hm
    rw [List.getElem?_take] at hk
    split_ifs at hk with hlt
    have heq := (List.getElem?_inj (List.getElem?_eq_some_iff.mp hk).1 hnd).mp (hk.trans hjob.symm)
    omega
  · rw [replayedStep_gt hgt] at hm
    cases hm

theorem replayedStep_other {i : ℕ} (hsame : s'.step = s.step) (hi : i ≠ s.step) :
    replayedStep s' i step = replayedStep s i step := by
  rcases Nat.lt_or_gt_of_ne hi with hlt | hgt
  · rw [replayedStep_lt hlt, replayedStep_lt (by omega)]
  · rw [replayedStep_gt hgt, replayedStep_gt (by omega)]

theorem HasDecision.effect {d : WorkflowDecision} (hv : LocallyValid w) (hs : OnTrack w s)
    (hstep : w.steps[s.step]? = some step) (hd : HasDecision w s d)
    (hawaits : (replayed w s t e).awaits d.request.action = true)
    (hretry : d.request.action = .retry → s.attempt < maxWorkflowAttempts) :
    Effect (replayed w s t e) (.resume d.request d.decidedAtMs)
      ((replayed w s t e).decided d.request d.decidedAtMs (s.revision + 1)) := by
  have hmem : d ∈ w.decisions := List.mem_of_getElem? hd.1
  have hlt := (List.getElem?_eq_some_iff.mp hd.1).1
  refine .resume (w := replayed w s t e) ?_ hd.2.1 (hv.decisions d hmem).request ?_ hawaits (replayed_current hstep) ?_
  · intro d' hd'
    have hbefore := hs.decided d' hd'
    rw [hd.2.1]
    omega
  · have hcount := hv.count
    simp only [replayed, List.length_take]
    omega
  · intro haction
    rw [replayedStep_self]
    exact hretry haction

theorem HasDecision.decisions_eq {d : WorkflowDecision} (hd : HasDecision w s d) :
    w.decisions.take s.decision ++ [{ stepIndex := s.step, request := d.request, decidedAtMs := d.decidedAtMs }] =
      w.decisions.take (s.decision + 1) := by
  rw [List.take_add_one, hd.1, ← hd.2.2]
  rfl

theorem Replays.effect (hv : LocallyValid w) (hs : OnTrack w s) (h : Replays w s s') {now : ℕ} (he : ErrorOk s e)
    (herror : ErrorOk s' error) (htime : TimeOk w s' now) :
    ∃ call, call.now = now ∧ Effect (replayed w s t e) call (replayed w s' now error) := by
  cases h with
  | @attach step hno hrev hstep hphase hmore =>
    obtain ⟨jobId, hjob⟩ : ∃ jobId, step.attempts[s.attempt]? = some jobId := ⟨_, List.getElem?_eq_getElem hmore⟩
    have hvalid := hv.steps _ _ hstep
    have hmem : jobId ∈ w.steps.flatMap (·.attempts) :=
      List.mem_flatMap.mpr ⟨step, List.mem_of_getElem? hstep, List.mem_of_getElem? hjob⟩
    have hlt : s.attempt < maxWorkflowAttempts := by
      have h1 := hvalid.attempt
      have h2 := hvalid.bound
      omega
    have heffect : Effect (replayed w s t e) (.attachJob jobId now) _ :=
      .attachJob (hv.references jobId hmem) (by simp [replayed, hphase, runStatus]) (replayed_current hstep)
        (by simp [replayedStep_self, hphase]) (by simpa [replayedStep_self] using hlt) (hv.job_unused hstep hjob)
    refine ⟨.attachJob jobId now, rfl, heffect.to_replayed rfl ?_ rfl rfl ?_ fun i old hold => ?_⟩
    · simp [WorkflowRun.attached, WorkflowRun.setStep, replayed, hphase, runStatus]
    · exact he.same (by simp [hphase]) herror (by simp)
    · by_cases hi : i = s.step
      · subst hi
        obtain rfl : step = old := Option.some.inj (hstep.symm.trans hold)
        simp [Effect.onStep, replayed, replayedStep, List.take_add_one, hjob]
      · refine Eq.trans ?_ (replayedStep_other (by rfl) hi).symm
        simp [Effect.onStep, replayed, hi]
  | @review step hno hrev hstep hphase =>
    obtain ⟨text, rfl, hblank, hsize⟩ := herror.text rfl
    have hrun : (replayed w s t e).status = .running := by
      rcases hphase with hphase | hphase <;> simp [replayed, hphase, runStatus]
    have heffect : Effect (replayed w s t e) (.needsReview text now) _ :=
      .needsReview hrun (replayed_current hstep) (by simpa [replayedStep_self] using hphase) ⟨hblank, hsize⟩
    refine ⟨.needsReview text now, rfl, heffect.to_replayed rfl rfl rfl rfl rfl fun i old hold => ?_⟩
    by_cases hi : i = s.step
    · subst hi
      simp [Effect.onStep, replayed, replayedStep]
    · refine Eq.trans ?_ (replayedStep_other (by rfl) hi).symm
      simp [Effect.onStep, replayed, hi]
  | @complete step hno hrev hstep hphase hcan =>
    obtain ⟨saved, hsaved, hdone, hres, _⟩ := replayCanComplete_iff.mp hcan
    obtain rfl : step = saved := Option.some.inj (hstep.symm.trans hsaved)
    have htask := hs.task hstep (.inr (.inl hphase))
    obtain ⟨result, hresult, hsize⟩ : ∃ result, step.result = some result ∧
        result.utf8ByteSize ≤ maxWorkflowResultBytes := by
      have hvalid := (hv.steps _ _ hstep).result
      rw [WorkflowRun.validateResult, if_pos hdone, ensure_eq_ok, htask] at hvalid
      cases hr : step.result with
      | none => simp [hr, WorkflowRun.resultMatches] at hvalid
      | some result => exact ⟨result, rfl, by simpa [hr, WorkflowRun.resultMatches] using hvalid⟩
    have heffect : Effect (replayed w s t e) (.completeTask result now) _ :=
      .completeTask (by simp [replayed, hphase, runStatus]) (replayed_current hstep)
        (by simp [replayedStep_self, hphase]) hsize
    refine ⟨.completeTask result now, rfl, heffect.to_replayed rfl ?_ ?_ ?_ ?_ fun i old hold => ?_⟩
    · rw [advanced_eq]
      exact statusAt_replayed _
    · rw [advanced_eq]
      rfl
    · rw [advanced_eq]
      rfl
    · rw [advanced_eq]
      exact he.same (by simp [hphase]) herror replayAdvance_phase
    · rw [hresult] at hcan
      exact advancedStep_replayed hv hstep hcan hold
  | @retry step d hd hstep hphase haction hmore =>
    obtain rfl : now = d.decidedAtMs := htime.decided d (by simp [List.take_add_one, hd.1]) (by rw [hd.2.1])
    have heffect : Effect (replayed w s t e) (.resume d.request d.decidedAtMs) _ :=
      hd.effect hv hs hstep (by simp [WorkflowRun.awaits, haction, replayed, hphase, runStatus]) fun _ => hmore
    refine ⟨.resume d.request d.decidedAtMs, rfl, heffect.to_replayed rfl ?_ ?_ ?_ ?_ fun i old hold => ?_⟩
    · simp [WorkflowRun.decided, haction, runStatus]
    · simp [WorkflowRun.decided, haction, WorkflowRun.setStep, replayed]
    · exact hd.decisions_eq
    · exact (herror.none (by simp)).symm
    · by_cases hi : i = s.step
      · subst hi
        simp [Effect.onStep, haction, replayed, replayedStep]
      · refine Eq.trans ?_ (replayedStep_other (by rfl) hi).symm
        simp [Effect.onStep, haction, replayed, hi]
  | @decide step d hd hstep haction hcan =>
    obtain rfl : now = d.decidedAtMs :=
      htime.decided d (by simp [WorkflowRun.replayAdvance, List.take_add_one, hd.1]) (by rw [hd.2.1]; rfl)
    have hne : d.request.action ≠ .retry := by
      rcases haction with ⟨_, h⟩ | ⟨_, h⟩ | ⟨_, h⟩ <;> simp [h]
    have hawaits : (replayed w s t e).awaits d.request.action = true := by
      rcases haction with ⟨hp, h⟩ | ⟨hp, h⟩ | ⟨hp, h⟩ <;> simp [h, WorkflowRun.awaits, replayed, hp, runStatus]
    have heffect : Effect (replayed w s t e) (.resume d.request d.decidedAtMs) _ :=
      hd.effect hv hs hstep hawaits fun h => absurd h hne
    refine ⟨.resume d.request d.decidedAtMs, rfl, heffect.to_replayed rfl ?_ ?_ ?_ ?_ fun i old hold => ?_⟩
    · simp only [WorkflowRun.decided, if_neg hne, advanced_eq]
      exact statusAt_replayed _
    · simp only [WorkflowRun.decided, if_neg hne, advanced_eq]
      rfl
    · exact hd.decisions_eq
    · exact (herror.none replayAdvance_phase).symm
    · have hreq := (hv.decisions d (List.mem_of_getElem? hd.1)).request
      rw [outcome_eq hreq] at hcan
      simp only [Effect.onStep, if_neg hne]
      exact advancedStep_replayed hv hstep hcan hold

end

/-! ## Validation is reachability -/

theorem OnTrack.revision_lt (hv : LocallyValid w) (hs : OnTrack w s) : s.revision + 1 < 2 ^ 64 := by
  have hsteps := (definition_bounds hv.definition).2
  simp only [WorkflowRun.definition, List.length_map, maxWorkflowSteps] at hsteps
  have hcount := hv.count
  simp only [maxWorkflowDecisions] at hcount
  have hbudget := hs.budget
  omega

/-- An error text for the reviews that left none. -/
def someError (s : ReplayState) : Option String := if s.phase = .needsReview then some "review" else none

theorem errorOk_someError (s : ReplayState) : ErrorOk s (someError s) := by
  unfold ErrorOk someError
  split_ifs
  · exact ⟨"review", rfl, by decide, by decide⟩
  · rfl

theorem started_eq_replayed (hsource : w.sourceTemplate = none) (hfirst : w.steps[0]? = some first) :
    started w.id w.agentId w.definition w.createdAtMs =
      replayed w (WorkflowRun.replayStart first) w.createdAtMs none := by
  rw [started_eq]
  have hsteps : w.definition.steps.mapIdx startedStep =
      w.steps.mapIdx (replayedStep (WorkflowRun.replayStart first)) := by
    apply List.ext_getElem?
    intro i
    rw [List.getElem?_mapIdx, List.getElem?_mapIdx, WorkflowRun.definition, List.getElem?_map]
    cases hi : w.steps[i]? with
    | none => rfl
    | some step =>
      cases i with
      | zero =>
        obtain rfl : first = step := Option.some.inj (hfirst.symm.trans hi)
        simp [startedStep, WorkflowRun.freshStep, replayedStep, WorkflowRun.replayStart]
      | succ i => simp [startedStep, WorkflowRun.freshStep, replayedStep, WorkflowRun.replayStart]
  have hstatus : statusAt (w.definition.steps.map WorkflowRun.freshStep) 0 =
      runStatus (WorkflowRun.replayStart first).phase := by
    cases hk : first.kind <;>
      simp [statusAt, WorkflowRun.definition, hfirst, WorkflowRun.freshStep, hk, WorkflowRun.replayStart,
        WorkflowRun.activation, initialPhase, runStatus]
  rw [hsteps, hstatus]
  apply WorkflowRun.ext
  all_goals first | rfl | exact hsource.symm

theorem Path.reachable (hv : LocallyValid w) (hsource : w.sourceTemplate = none) (hfirst : w.steps[0]? = some first)
    (h : Path w first s) {now : ℕ} {error : Option String} (htime : TimeOk w s now) (herror : ErrorOk s error) :
    Reachable (replayed w s now error) := by
  induction h generalizing now error with
  | refl =>
    have hphase : (WorkflowRun.replayStart first).phase ≠ .needsReview := by
      cases hk : first.kind <;> simp [WorkflowRun.replayStart, hk, initialPhase]
    obtain rfl := htime.unchanged rfl
    obtain rfl := herror.none hphase
    have hnew := (new_eq_ok w.createdAtMs).mpr ⟨hv.id, hv.agent, hv.definition, rfl⟩
    exact ⟨_, _, _, _, _, hnew, started_eq_replayed hsource hfirst ▸ .start⟩
  | @tail s s' hpath hstep ih =>
    have hs := Path.onTrack hfirst hpath
    have hprev := ih (hs.timeOk hv) (errorOk_someError s)
    obtain ⟨call, hnow, heffect⟩ := hstep.effect hv hs (errorOk_someError s) herror htime
    refine hprev.next ?_ (hs.revision_lt hv) heffect
    rw [hnow]
    exact (hstep.lastTime_le hv).trans htime.after

theorem LocallyValid.lastTime_le (hv : LocallyValid w) (s : ReplayState) : lastTime w s ≤ w.updatedAtMs := by
  cases he : (w.decisions.take s.decision).getLast? with
  | none => simpa [lastTime, he] using hv.times
  | some e =>
    have hmem := List.mem_of_mem_take (List.mem_of_getLast? he)
    simpa [lastTime, he] using (hv.decisions e hmem).before

theorem LocallyValid.timeOk (hv : LocallyValid w) (hrev : s.revision = w.revision) : TimeOk w s w.updatedAtMs where
  after := hv.lastTime_le s
  unchanged := fun hone => hv.unchanged (hrev ▸ hone)
  decided := fun d hd hlast => ((hv.decisions d (List.mem_of_mem_take hd)).last (hrev ▸ hlast)).symm

theorem StepValid.replayed_later {index : ℕ} {status : WorkflowStepStatus} (h : StepValid w index step)
    (hi : w.currentStep < index) (hcur : s.step = w.currentStep) (hstatus : step.status = status) :
    { replayedStep s index step with status := status } = step := by
  obtain ⟨_, hatt, hjob⟩ := h.later hi
  have hnil : step.attempts = [] := List.length_eq_zero_iff.mp (h.attempt.symm.trans hatt)
  rw [replayedStep_gt (by omega)]
  exact WorkflowStep.ext rfl rfl rfl rfl hstatus.symm hjob.symm hatt.symm hnil.symm (h.no_result hi.le).symm

theorem StepValid.replayed_current {status : WorkflowStepStatus} (h : StepValid w w.currentStep step)
    (hcur : s.step = w.currentStep) (hstatus : step.status = status) (hatt : s.attempt = step.attempt)
    (hjob : if s.attached then step.jobId = step.attempts.getLast? else step.jobId = none) :
    { replayedStep s w.currentStep step with status := status } = step := by
  have hall : step.attempts.take s.attempt = step.attempts := by rw [hatt, h.attempt, List.take_length]
  have hjob' : (if s.attached then step.attempts.getLast? else none) = step.jobId := by
    cases ha : s.attached with
    | false =>
      rw [ha] at hjob
      exact hjob.symm
    | true =>
      rw [ha] at hjob
      exact hjob.symm
  rw [← hcur, replayedStep_self, hall]
  exact WorkflowStep.ext rfl rfl rfl rfl hstatus.symm hjob' hatt rfl (h.no_result le_rfl).symm

theorem Describes.eq_replayed (hv : LocallyValid w) (hopen : w.status ≠ .cancelled) (h : Describes w s step) :
    w = replayed w s w.updatedAtMs w.error := by
  have hvalid := hv.steps _ _ h.found
  apply WorkflowRun.ext
  case status =>
    have hm := (h.current ▸ hvalid).current
    have hphase := h.phase
    show w.status = runStatus s.phase
    rw [← hphase]
    cases hs : w.status <;> simp only [WorkflowRun.currentMatches, hs, Bool.and_eq_true, Bool.or_eq_true, beq_iff_eq] at hm
    · rcases hm.2 with hm | hm <;> rw [hm] <;> rfl
    · rw [hm.2]; rfl
    · rw [hm.2]; rfl
    · rw [hm.2]; rfl
    · cases hm
    · exact absurd hs hopen
  case revision => exact h.revision.symm
  case currentStep => exact h.current.symm
  case decisions =>
    show w.decisions = w.decisions.take s.decision
    rw [h.decision, List.take_length]
  case steps =>
    apply List.ext_getElem?
    intro i
    rw [replayed_getElem?]
    cases hi : w.steps[i]? with
    | none => rfl
    | some old =>
      have hold := hv.steps i old hi
      refine congrArg some ?_
      rcases lt_trichotomy i w.currentStep with hlt | rfl | hgt
      · rw [replayedStep_lt (by rw [h.current]; exact hlt)]
      · have hfound := h.found
        rw [h.current, hi, Option.some.injEq] at hfound
        subst hfound
        have hphase : old.status = (replayedStep s w.currentStep old).status := by
          rw [← h.current, replayedStep_self]
          exact h.phase
        exact (hold.replayed_current h.current hphase h.attempt h.job).symm
      · have hstatus : old.status = (replayedStep s i old).status := by
          rw [replayedStep_gt (by rw [h.current]; exact hgt), (hold.later hgt).1, if_neg hopen]
        exact (hold.replayed_later hgt h.current hstatus).symm
  all_goals rfl

theorem OnTrack.status_open (hs : OnTrack w s) (hstep : w.steps[s.step]? = some step) :
    runStatus s.phase ≠ .cancelled ∧ runStatus s.phase ≠ .completed := by
  rcases hs.phase step hstep with h | ⟨_, h | h⟩
  · rw [h]
    cases step.kind <;> simp [initialPhase, runStatus]
  · simp [h, runStatus]
  · simp [h, runStatus]

theorem errorOk_of_status (hv : LocallyValid w) (hstatus : w.status = runStatus s.phase) : ErrorOk s w.error := by
  unfold ErrorOk
  split_ifs with hphase
  · have herr := hv.error
    rw [hstatus, hphase] at herr
    cases he : w.error with
    | none => simp [he, runStatus, WorkflowRun.errorMatches] at herr
    | some text => exact ⟨text, rfl, by simpa [he, runStatus, WorkflowRun.errorMatches] using herr⟩
  · refine no_error hv ?_
    rw [hstatus]
    cases h : s.phase <;> simp_all [runStatus]

theorem eq_replayed_of_completed (hv : LocallyValid w) (hdone : w.status = .completed) (hs : OnTrack w s)
    (hcur : s.step = w.currentStep) (hrev : s.revision = w.revision) (hdec : s.decision = w.decisions.length) :
    w = replayed w s w.updatedAtMs w.error := by
  have hend := hv.completed.mp hdone
  apply WorkflowRun.ext
  case status =>
    show w.status = runStatus s.phase
    rw [hs.past (by omega), hdone]
    rfl
  case revision => exact hrev.symm
  case currentStep => exact hcur.symm
  case decisions =>
    show w.decisions = w.decisions.take s.decision
    rw [hdec, List.take_length]
  case steps =>
    apply List.ext_getElem?
    intro i
    rw [replayed_getElem?]
    cases hi : w.steps[i]? with
    | none => rfl
    | some old =>
      have hlt := (List.getElem?_eq_some_iff.mp hi).1
      rw [Option.map_some, replayedStep_lt (by omega)]
  all_goals rfl

theorem eq_cancelled_replayed {t : ℕ} {e : Option String} (hv : LocallyValid w) (hcancel : w.status = .cancelled)
    (hstep : w.steps[s.step]? = some step) (hcur : s.step = w.currentStep) (hrev : s.revision + 1 = w.revision)
    (hdec : s.decision = w.decisions.length) (hatt : s.attempt = step.attempt)
    (hjob : if s.attached then step.jobId = step.attempts.getLast? else step.jobId = none) :
    w = (replayed w s t e).cancelled w.updatedAtMs (s.revision + 1) := by
  apply WorkflowRun.ext
  case status => exact hcancel
  case revision => exact hrev.symm
  case currentStep => exact hcur.symm
  case decisions =>
    show w.decisions = w.decisions.take s.decision
    rw [hdec, List.take_length]
  case error => exact no_error hv (by simp [hcancel])
  case steps =>
    apply List.ext_getElem?
    intro i
    simp only [WorkflowRun.cancelled, List.getElem?_mapIdx, replayed_getElem?]
    cases hi : w.steps[i]? with
    | none => rfl
    | some old =>
      have hold := hv.steps i old hi
      rw [Option.map_some, Option.map_some, Option.some.injEq, show (replayed w s t e).currentStep = w.currentStep from hcur]
      rcases lt_trichotomy i w.currentStep with hlt | rfl | hgt
      · rw [if_neg (by omega), replayedStep_lt (by omega)]
      · obtain rfl : step = old := by
          rw [hcur, hi, Option.some.injEq] at hstep
          exact hstep.symm
        have hm := hold.current
        rw [WorkflowRun.currentMatches, hcancel] at hm
        rw [if_pos le_rfl]
        exact (hold.replayed_current hcur (by simpa using hm) hatt hjob).symm
      · have hstatus := (hold.later hgt).1
        rw [if_pos hcancel] at hstatus
        rw [if_pos hgt.le]
        exact (hold.replayed_later hgt hcur hstatus).symm
  all_goals rfl

/-- **Validation is exactly reachability**: a run without a template validates iff it is the result of `new` and finitely
many successful calls. -/
theorem validate_iff_reachable (hsource : w.sourceTemplate = none) : w.validate = .ok () ↔ Reachable w := by
  constructor
  · intro h
    obtain ⟨hv, first, s, hfirst, hpath, hle, hacc⟩ := validate_eq_ok.mp h
    have hs := hpath.onTrack hfirst
    by_cases hcancel : w.status = .cancelled
    · -- the last call was the cancellation
      simp only [WorkflowRun.replayAccepts, WorkflowRun.replayMatchesCurrent, hcancel, Bool.and_eq_true, Bool.or_eq_true,
        beq_iff_eq, reduceCtorEq, if_false, if_true, Bool.false_eq_true, and_false, false_or, true_and,
        checkedAdd_eq_some] at hacc
      obtain ⟨⟨hdec, hcur⟩, ⟨_, hrev⟩, hatt⟩ := hacc
      have hlt := hv.current_lt (by simp [hcancel])
      obtain ⟨step, hstep⟩ : ∃ step, w.steps[s.step]? = some step := ⟨_, List.getElem?_eq_getElem (by omega)⟩
      obtain ⟨hatt, hjob⟩ := (replayMatchesAttempt_eq hstep).mp hatt
      obtain ⟨hopen, hleft⟩ := hs.status_open hstep
      have hprev := hpath.reachable hv hsource hfirst (hs.timeOk hv) (errorOk_someError s)
      have heffect : Effect (replayed w s (lastTime w s) (someError s)) (.cancel s.revision w.updatedAtMs)
          ((replayed w s (lastTime w s) (someError s)).cancelled w.updatedAtMs (s.revision + 1)) :=
        .cancel hopen hleft
      rw [eq_cancelled_replayed hv hcancel hstep hcur hrev.symm hdec hatt hjob]
      refine hprev.next ?_ (hs.revision_lt hv) heffect
      exact hv.lastTime_le s
    · by_cases hdone : w.status = .completed
      · simp only [WorkflowRun.replayAccepts, WorkflowRun.replayMatchesCurrent, hdone, Bool.and_eq_true, Bool.or_eq_true,
          beq_iff_eq, reduceCtorEq, if_true, false_and, or_false] at hacc
        obtain ⟨⟨hdec, hcur⟩, hrev, _⟩ := hacc
        rw [eq_replayed_of_completed hv hdone hs hcur hrev hdec]
        refine hpath.reachable hv hsource hfirst (hv.timeOk hrev) (errorOk_of_status hv ?_)
        have hend := hv.completed.mp hdone
        rw [hs.past (by omega), hdone]
        rfl
      · obtain ⟨step, hdesc⟩ := describes_of_accepts hacc hcancel hdone
        have heq := hdesc.eq_replayed hv hcancel
        rw [heq]
        exact hpath.reachable hv hsource hfirst (hv.timeOk hdesc.revision)
          (errorOk_of_status hv (congrArg WorkflowRun.status heq))
  · exact Reachable.validate

def sampleRun : WorkflowRun :=
  { id := "workflow-1"
    agentId := "agent-1"
    title := "Saved work"
    requestKey := "request-1"
    status := .cancelled
    revision := 6
    currentStep := 0
    steps :=
      [{ id := "step-0", title := "Step 0", kind := .task, prompt := "Instructions 0", status := .cancelled,
         jobId := some "job-2", attempt := 2, attempts := ["job-1", "job-2"], result := none }]
    decisions :=
      [{ stepIndex := 0
         request := { revision := 3, action := .retry, value := none, acknowledgeUncertain := true }
         decidedAtMs := 13 }]
    createdAtMs := 10
    updatedAtMs := 20
    error := none
    sourceTemplate := none }

/-- The sample is reached; with two revisions more, or without its decision, it is not. -/
theorem sampleRun_reachable :
    Reachable sampleRun ∧ ¬Reachable { sampleRun with revision := 8 } ∧ ¬Reachable { sampleRun with decisions := [] } := by
  refine ⟨(validate_iff_reachable rfl).mp (by decide +kernel), fun h => ?_, fun h => ?_⟩
  · have hval := (validate_iff_reachable rfl).mpr h
    revert hval
    decide +kernel
  · have hval := (validate_iff_reachable rfl).mpr h
    revert hval
    decide +kernel

end AnimaCore.Workflows
