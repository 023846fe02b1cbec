import AnimaCore.Workflows

/-!
# AnimaCore.Workflows.Replay — what `validate` says, and what one replayed event can be

`Replays w s s'` lists the five events the search of `history_is_reachable` knows; `mem_replayNext` says that they are
all it pushes.  A rank goes down with each of them (`Replays.rank_lt`), so the search ends and `validate` is a
conjunction of local checks and of the existence of a path (`validate_eq_ok`).

`Onwards w w'`: the run `w'` keeps the completed steps, the saved attempts and the decisions of `w`, and a replay of
`w` is a replay of `w'` up to the revision of `w` (`Path.onwards`).
-/

namespace AnimaCore.Workflows

open Lib

variable {w w' : WorkflowRun} {s s' t : ReplayState}

/-! ## Events -/

/-- The next decision, if any, is recorded at a later revision. -/
def NoDecision (w : WorkflowRun) (s : ReplayState) : Prop :=
  ∀ d, w.decisions[s.decision]? = some d → s.revision < d.request.revision

/-- The next decision is recorded at this revision, for this step. -/
def HasDecision (w : WorkflowRun) (s : ReplayState) (d : WorkflowDecision) : Prop :=
  w.decisions[s.decision]? = some d ∧ d.request.revision = s.revision ∧ d.stepIndex = s.step

def Completes (phase : WorkflowStepStatus) (action : WorkflowResumeAction) : Prop :=
  (phase = .needsReview ∧ action = .resolve) ∨ (phase = .awaitingApproval ∧ action = .approve) ∨
    (phase = .awaitingInput ∧ action = .answer)

def WorkflowResumeRequest.outcome (request : WorkflowResumeRequest) : Option String :=
  if request.action = .approve then none else request.value

inductive Replays (w : WorkflowRun) : ReplayState → ReplayState → Prop
  | attach {s : ReplayState} {step : WorkflowStep} (hno : NoDecision w s) (hrev : s.revision < w.revision)
      (hstep : w.steps[s.step]? = some step) (hphase : s.phase = .pending) (hmore : s.attempt < step.attempts.length) :
      Replays w s
        { s with revision := s.revision + 1, attempt := s.attempt + 1, attached := true, phase := .running }
  | review {s : ReplayState} {step : WorkflowStep} (hno : NoDecision w s) (hrev : s.revision < w.revision)
      (hstep : w.steps[s.step]? = some step) (hphase : s.phase = .pending ∨ s.phase = .running) :
      Replays w s { s with revision := s.revision + 1, phase := .needsReview }
  | complete {s : ReplayState} {step : WorkflowStep} (hno : NoDecision w s) (hrev : s.revision < w.revision)
      (hstep : w.steps[s.step]? = some step) (hphase : s.phase = .running)
      (hcan : w.replayCanComplete s step.result = true) :
      Replays w s (w.replayAdvance { s with revision := s.revision + 1 })
  | retry {s : ReplayState} {step : WorkflowStep} {d : WorkflowDecision} (hd : HasDecision w s d)
      (hstep : w.steps[s.step]? = some step) (hphase : s.phase = .needsReview) (haction : d.request.action = .retry)
      (hmore : s.attempt < maxWorkflowAttempts) :
      Replays w s
        { s with revision := s.revision + 1, decision := s.decision + 1, phase := .pending, attached := false }
  | decide {s : ReplayState} {step : WorkflowStep} {d : WorkflowDecision} (hd : HasDecision w s d)
      (hstep : w.steps[s.step]? = some step) (haction : Completes s.phase d.request.action)
      (hcan : w.replayCanComplete s d.request.outcome = true) :
      Replays w s (w.replayAdvance { s with revision := s.revision + 1, decision := s.decision + 1 })

theorem mem_replayDecision {d : WorkflowDecision} {step : WorkflowStep} (hstep : w.steps[s.step]? = some step)
    (hd : w.decisions[s.decision]? = some d) (hrev : d.request.revision = s.revision)
    (h : s' ∈ w.replayDecision s d) : Replays w s s' := by
  unfold WorkflowRun.replayDecision at h
  by_cases hindex : d.stepIndex = s.step
  · have hhas : HasDecision w s d := ⟨hd, hrev, hindex⟩
    rw [if_neg (not_not.mpr hindex)] at h
    dsimp only at h
    split at h
    · rename_i hphase haction
      split_ifs at h with hmore
      · rw [List.mem_singleton] at h
        exact h ▸ .retry hhas hstep hphase haction hmore
      · cases h
    · rename_i hphase haction
      split_ifs at h with hcan
      · rw [List.mem_singleton] at h
        refine h ▸ .decide hhas hstep (.inl ⟨hphase, haction⟩) ?_
        simpa [WorkflowResumeRequest.outcome, haction] using hcan
      · cases h
    · rename_i hphase haction
      split_ifs at h with hcan
      · rw [List.mem_singleton] at h
        refine h ▸ .decide hhas hstep (.inr (.inl ⟨hphase, haction⟩)) ?_
        simpa [WorkflowResumeRequest.outcome, haction] using hcan
      · cases h
    · rename_i hphase haction
      split_ifs at h with hcan
      · rw [List.mem_singleton] at h
        refine h ▸ .decide hhas hstep (.inr (.inr ⟨hphase, haction⟩)) ?_
        simpa [WorkflowResumeRequest.outcome, haction] using hcan
      · cases h
    · cases h
  · rw [if_pos hindex] at h
    cases h

theorem mem_replayEvent {step : WorkflowStep} (hno : NoDecision w s) (hrev : s.revision < w.revision)
    (hstep : w.steps[s.step]? = some step) (h : s' ∈ w.replayEvent s step) : Replays w s s' := by
  unfold WorkflowRun.replayEvent at h
  dsimp only at h
  split at h
  · rename_i hphase
    split_ifs at h with hmore
    · rcases List.mem_pair.mp h with rfl | rfl
      · exact .review hno hrev hstep (.inl hphase)
      · exact .attach hno hrev hstep hphase hmore
    · rw [List.mem_singleton] at h
      exact h ▸ .review hno hrev hstep (.inl hphase)
  · rename_i hphase
    split_ifs at h with hcan
    · rcases List.mem_pair.mp h with rfl | rfl
      · exact .review hno hrev hstep (.inr hphase)
      · exact .complete hno hrev hstep hphase hcan
    · rw [List.mem_singleton] at h
      exact h ▸ .review hno hrev hstep (.inr hphase)
  · cases h

theorem NoDecision.replayNext_eq {step : WorkflowStep} (hno : NoDecision w s) (hrev : s.revision < w.revision)
    (hstep : w.steps[s.step]? = some step) : w.replayNext s = w.replayEvent s step := by
  unfold WorkflowRun.replayNext
  cases hd : w.decisions[s.decision]? with
  | none => simp [hstep, hrev]
  | some d =>
    have hlater := hno d hd
    have hne : d.request.revision ≠ s.revision := by omega
    have hnot : ¬d.request.revision < s.revision := by omega
    simp [Option.filter_some, hstep, hne, hrev, hnot]

theorem HasDecision.replayNext_eq {step : WorkflowStep} {d : WorkflowDecision} (hd : HasDecision w s d)
    (hstep : w.steps[s.step]? = some step) : w.replayNext s = w.replayDecision s d := by
  unfold WorkflowRun.replayNext
  simp [Option.filter_some, hd.1, hd.2.1, hstep]

theorem mem_replayNext : s' ∈ w.replayNext s ↔ Replays w s s' := by
  constructor
  · intro h
    unfold WorkflowRun.replayNext at h
    by_cases hmissed : w.decisions[s.decision]?.any (fun d => decide (d.request.revision < s.revision)) = true
    · rw [if_pos hmissed] at h
      cases h
    · rw [if_neg hmissed] at h
      cases hstep : w.steps[s.step]? with
      | none =>
        rw [hstep] at h
        cases h
      | some step =>
        rw [hstep] at h
        dsimp only at h
        cases hd : w.decisions[s.decision]? with
        | none =>
          rw [hd] at h
          simp only [Option.filter_none] at h
          split_ifs at h with hrev
          · cases h
          · have hno : NoDecision w s := fun d hd' => by rw [hd] at hd'; cases hd'
            exact mem_replayEvent hno (by omega) hstep h
        | some d =>
          rw [hd] at h hmissed
          by_cases heq : d.request.revision = s.revision
          · simp only [Option.filter_some, heq, beq_self_eq_true, if_true] at h
            exact mem_replayDecision hstep hd heq h
          · simp only [Option.filter_some, beq_iff_eq, heq, if_false] at h
            split_ifs at h with hrev
            · cases h
            · have hno : NoDecision w s := by
                intro d' hd'
                rw [hd, Option.some.injEq] at hd'
                subst hd'
                simp only [Option.any_some, decide_eq_true_eq] at hmissed
                omega
              exact mem_replayEvent hno (by omega) hstep h
  · intro h
    cases h with
    | attach hno hrev hstep hphase hmore =>
      rw [hno.replayNext_eq hrev hstep]
      simp [WorkflowRun.replayEvent, hphase, hmore]
    | review hno hrev hstep hphase =>
      rw [hno.replayNext_eq hrev hstep]
      rcases hphase with hphase | hphase
      · simp only [WorkflowRun.replayEvent, hphase]
        split_ifs <;> simp
      · simp only [WorkflowRun.replayEvent, hphase]
        split_ifs <;> simp
    | complete hno hrev hstep hphase hcan =>
      rw [hno.replayNext_eq hrev hstep]
      simp [WorkflowRun.replayEvent, hphase, hcan]
    | retry hd hstep hphase haction hmore =>
      rw [hd.replayNext_eq hstep]
      simp [WorkflowRun.replayDecision, hd.2.2, hphase, haction, hmore]
    | decide hd hstep haction hcan =>
      rw [hd.replayNext_eq hstep]
      rcases haction with ⟨hphase, haction⟩ | ⟨hphase, haction⟩ | ⟨hphase, haction⟩ <;>
        simp_all [WorkflowRun.replayDecision, HasDecision, WorkflowResumeRequest.outcome]

/-! ## The search ends -/

/-- How far a phase is from the end of its step. -/
def phaseRank : WorkflowStepStatus → ℕ
  | .pending => 3
  | .running => 2
  | _ => 1

def rank (w : WorkflowRun) (s : ReplayState) : ℕ :=
  4 * (w.steps.length - s.step) + 4 * (w.decisions.length - s.decision) + phaseRank s.phase

theorem phaseRank_pos (phase : WorkflowStepStatus) : 1 ≤ phaseRank phase := by cases phase <;> decide

theorem phaseRank_le (phase : WorkflowStepStatus) : phaseRank phase ≤ 3 := by cases phase <;> decide

theorem Replays.rank_lt (h : Replays w s s') : rank w s' < rank w s := by
  unfold rank
  cases h with
  | attach hno hrev hstep hphase hmore =>
    rw [hphase]
    simp [phaseRank]
  | review hno hrev hstep hphase =>
    rcases hphase with hphase | hphase <;> rw [hphase] <;> simp [phaseRank]
  | complete hno hrev hstep hphase hcan =>
    have hlt := (List.getElem?_eq_some_iff.mp hstep).1
    have hle := phaseRank_le (w.replayAdvance { s with revision := s.revision + 1 }).phase
    have hpos := phaseRank_pos s.phase
    simp only [WorkflowRun.replayAdvance] at hle ⊢
    omega
  | retry hd hstep hphase haction hmore =>
    have hlt := (List.getElem?_eq_some_iff.mp hd.1).1
    rw [hphase]
    simp only [phaseRank]
    omega
  | decide hd hstep haction hcan =>
    have hlt := (List.getElem?_eq_some_iff.mp hstep).1
    have hle := phaseRank_le (w.replayAdvance { s with revision := s.revision + 1, decision := s.decision + 1 }).phase
    have hpos := phaseRank_pos s.phase
    simp only [WorkflowRun.replayAdvance] at hle ⊢
    omega

theorem Replays.revision_eq (h : Replays w s s') : s'.revision = s.revision + 1 := by
  cases h <;> rfl

theorem length_replayNext_le (w : WorkflowRun) (s : ReplayState) : (w.replayNext s).length ≤ 2 := by
  have hevent : ∀ step, (w.replayEvent s step).length ≤ 2 := by
    intro step
    unfold WorkflowRun.replayEvent
    dsimp only
    split <;> first | split_ifs <;> simp | simp
  have hdecision : ∀ d, (w.replayDecision s d).length ≤ 2 := by
    intro d
    unfold WorkflowRun.replayDecision
    dsimp only
    split
    · simp
    · split <;> first | split_ifs <;> simp | simp
  unfold WorkflowRun.replayNext
  split
  · simp
  · split
    · simp
    · split
      · exact hdecision _
      · split
        · simp
        · exact hevent _

/-- The states a replay of `w` reaches. -/
def Path (w : WorkflowRun) (first : WorkflowStep) (s : ReplayState) : Prop :=
  Relation.ReflTransGen (Replays w) (WorkflowRun.replayStart first) s

theorem edge_iff : Edge w.replaySkips w.replayNext s s' ↔ s.revision ≤ w.revision ∧ Replays w s s' := by
  simp only [Edge, WorkflowRun.replaySkips, decide_eq_false_iff_not, not_lt, mem_replayNext]

theorem edges_iff_path {first : WorkflowStep} (hle : s.revision ≤ w.revision) :
    Relation.ReflTransGen (Edge w.replaySkips w.replayNext) (WorkflowRun.replayStart first) s ↔ Path w first s := by
  constructor
  · intro h
    exact Relation.ReflTransGen.mono (fun a b hab => (edge_iff.mp hab).2) _ _ h
  · intro h
    induction h with
    | refl => exact .refl
    | @tail t s hpath hstep ih =>
      have hrev := hstep.revision_eq
      exact .tail (ih (by omega)) (edge_iff.mpr ⟨by omega, hstep⟩)

theorem historyIsReachable_eq_ok :
    w.historyIsReachable = .ok true ↔
      ∃ first s, w.steps[0]? = some first ∧ Path w first s ∧ s.revision ≤ w.revision ∧ w.replayAccepts s = true := by
  have hrank : ∀ s t, w.replaySkips s = false → t ∈ w.replayNext s → rank w t < rank w s := fun s t _ ht =>
    (mem_replayNext.mp ht).rank_lt
  have hrounds : ∀ first, (2 + 1) ^ rank w (WorkflowRun.replayStart first) < w.replayRounds := by
    intro first
    have hle := phaseRank_le (WorkflowRun.replayStart first).phase
    refine Nat.pow_lt_pow_right (by omega) ?_
    simp only [rank, WorkflowRun.replayStart] at hle ⊢
    omega
  have hsearch : ∀ first, search w.replaySkips w.replayAccepts w.replayNext w.replayRounds
      [WorkflowRun.replayStart first] [] = true ↔
        Finds w.replaySkips w.replayAccepts w.replayNext (WorkflowRun.replayStart first) := fun first =>
    search_iff hrank (length_replayNext_le w) (hrounds first)
  unfold WorkflowRun.historyIsReachable
  rw [bind_eq_ok]
  constructor
  · rintro ⟨first, hfirst, h⟩
    obtain ⟨s, hpath, hskip, hacc⟩ := (hsearch first).mp (Except.ok.inj h)
    have hle : s.revision ≤ w.revision := by simpa [WorkflowRun.replaySkips] using hskip
    exact ⟨first, s, okOr_eq_ok.mp hfirst, (edges_iff_path hle).mp hpath, hle, hacc⟩
  · rintro ⟨first, s, hfirst, hpath, hle, hacc⟩
    refine ⟨first, okOr_eq_ok.mpr hfirst, congrArg Except.ok ((hsearch first).mpr ?_)⟩
    exact ⟨s, (edges_iff_path hle).mpr hpath, by simpa [WorkflowRun.replaySkips] using hle, hacc⟩

/-! ## What `validate` checks -/

theorem request_validate_eq_ok {request : WorkflowResumeRequest} :
    request.validate = .ok () ↔
      request.revision ≠ 0 ∧
        (if request.action = .approve ∨ request.action = .retry then request.value = none
          else ∃ value, request.value = some value ∧ trimmedEmpty value = false ∧
            value.utf8ByteSize ≤ maxWorkflowInputBytes) ∧
        ((request.action ≠ .retry ∧ request.action ≠ .resolve) ∨ request.acknowledgeUncertain = true) := by
  unfold WorkflowResumeRequest.validate
  cases request.action <;> simp [Option.any_eq_true]

theorem outcome_eq {request : WorkflowResumeRequest} (hreq : request.validate = .ok ()) :
    request.outcome = request.value := by
  unfold WorkflowResumeRequest.outcome
  split_ifs with happrove
  · have hval := (request_validate_eq_ok.mp hreq).2.1
    rw [if_pos (.inl happrove)] at hval
    exact hval.symm
  · rfl

/-- What `validate` asks of one step. -/
structure StepValid (w : WorkflowRun) (index : ℕ) (step : WorkflowStep) : Prop where
  attempt : step.attempt = step.attempts.length
  bound : step.attempt ≤ maxWorkflowAttempts
  job : ∀ jobId, step.jobId = some jobId → step.attempts.getLast? = some jobId
  checkpoint : step.kind = .task ∨ (step.attempt = 0 ∧ step.jobId = none)
  position : w.validatePosition index step = .ok ()
  result : WorkflowRun.validateResult step = .ok ()

/-- What `validate` asks of one decision by itself. -/
structure DecisionValid (w : WorkflowRun) (d : WorkflowDecision) : Prop where
  request : d.request.validate = .ok ()
  step : d.stepIndex < w.steps.length
  revision : d.request.revision < w.revision
  after : w.createdAtMs ≤ d.decidedAtMs
  before : d.decidedAtMs ≤ w.updatedAtMs
  last : d.request.revision + 1 = w.revision → d.decidedAtMs = w.updatedAtMs

/-- Decisions are recorded in the order of their revisions and times. -/
def Earlier (d d' : WorkflowDecision) : Prop :=
  d.request.revision < d'.request.revision ∧ d.decidedAtMs ≤ d'.decidedAtMs

/-- What `validate` checks before the search. -/
structure LocallyValid (w : WorkflowRun) : Prop where
  source : w.validateSource = .ok ()
  id : validateReference w.id "workflow ID" = .ok ()
  agent : validateReference w.agentId "agent ID" = .ok ()
  definition : validateDefinition w.definition = .ok ()
  revision : w.revision ≠ 0
  times : w.createdAtMs ≤ w.updatedAtMs
  unchanged : w.revision = 1 → w.updatedAtMs = w.createdAtMs
  current : w.currentStep ≤ w.steps.length
  completed : w.status = .completed ↔ w.currentStep = w.steps.length
  error : WorkflowRun.errorMatches w.error w.status = true
  jobs : (w.steps.flatMap (·.attempts)).Nodup
  references : ∀ jobId ∈ w.steps.flatMap (·.attempts), validateReference jobId "workflow job ID" = .ok ()
  steps : ∀ index step, w.steps[index]? = some step → StepValid w index step
  count : w.decisions.length ≤ maxWorkflowDecisions
  decisions : ∀ d ∈ w.decisions, DecisionValid w d
  ordered : w.decisions.Pairwise Earlier

theorem validateJobIds_eq_ok {jobIds seen seen' : List String} :
    jobIds.foldlM WorkflowRun.validateJobId seen = .ok seen' ↔
      (∀ jobId ∈ jobIds, validateReference jobId "workflow job ID" = .ok ()) ∧ jobIds.Nodup ∧
        (∀ jobId ∈ jobIds, jobId ∉ seen) ∧ seen' = jobIds.reverse ++ seen := by
  induction jobIds generalizing seen with
  | nil => simp [pure, Except.pure, eq_comm]
  | cons jobId jobIds ih =>
    simp only [List.foldlM_cons, WorkflowRun.validateJobId, bind_eq_ok, ensure_eq_ok, ih, List.forall_mem_cons,
      List.nodup_cons, List.reverse_cons, List.append_assoc, List.singleton_append]
    constructor
    · rintro ⟨_, ⟨_, href, _, hnew, hseen⟩, hrefs, hnd, hnot, rfl⟩
      cases hseen
      have hfresh : jobId ∉ jobIds := fun hm => absurd (List.mem_cons_self) (hnot jobId hm)
      exact ⟨⟨href, hrefs⟩, ⟨hfresh, hnd⟩, ⟨hnew, fun j hj hm => hnot j hj (List.mem_cons_of_mem _ hm)⟩, rfl⟩
    · rintro ⟨⟨href, hrefs⟩, ⟨hfresh, hnd⟩, ⟨hnew, hnot⟩, rfl⟩
      refine ⟨jobId :: seen, ⟨(), href, (), hnew, rfl⟩, hrefs, hnd, fun j hj => ?_, rfl⟩
      rw [List.mem_cons, not_or]
      exact ⟨fun he => hfresh (he ▸ hj), hnot j hj⟩

theorem validateStep_eq_ok {step : WorkflowStep} {index : ℕ} {seen seen' : List String} :
    w.validateStep seen (step, index) = .ok seen' ↔
      StepValid w index step ∧ step.attempts.foldlM WorkflowRun.validateJobId seen = .ok seen' := by
  simp only [WorkflowRun.validateStep, bind_eq_ok, ensure_eq_ok, Option.all_eq_true, beq_iff_eq]
  constructor
  · rintro ⟨_, ⟨hatt, hbound⟩, ids, hids, _, hjob, _, hcheck, _, hpos, _, hres, h⟩
    cases h
    exact ⟨⟨hatt, hbound, hjob, hcheck, hpos, hres⟩, hids⟩
  · rintro ⟨⟨hatt, hbound, hjob, hcheck, hpos, hres⟩, hids⟩
    exact ⟨(), ⟨hatt, hbound⟩, seen', hids, (), hjob, (), hcheck, (), hpos, (), hres, rfl⟩

theorem validateSteps_eq_ok {entries : List (WorkflowStep × ℕ)} {seen seen' : List String} :
    entries.foldlM w.validateStep seen = .ok seen' ↔
      (∀ e ∈ entries, StepValid w e.2 e.1) ∧
        (entries.flatMap (·.1.attempts)).foldlM WorkflowRun.validateJobId seen = .ok seen' := by
  induction entries generalizing seen with
  | nil => simp
  | cons e entries ih =>
    obtain ⟨step, index⟩ := e
    simp only [List.foldlM_cons, bind_eq_ok, validateStep_eq_ok, ih, List.forall_mem_cons, List.flatMap_cons,
      List.foldlM_append]
    constructor
    · rintro ⟨ids, ⟨hstep, hids⟩, hrest, hseen⟩
      exact ⟨⟨hstep, hrest⟩, ids, hids, hseen⟩
    · rintro ⟨⟨hstep, hrest⟩, ids, hids, hseen⟩
      exact ⟨ids, ⟨hstep, hids⟩, hrest, hseen⟩

theorem validateDecisions_eq_ok {ds : List WorkflowDecision} {last : ℕ × ℕ} (hlast : w.createdAtMs ≤ last.2) :
    (∃ last', ds.foldlM w.validateDecision last = .ok last') ↔
      (∀ d ∈ ds, DecisionValid w d ∧ last.1 < d.request.revision ∧ last.2 ≤ d.decidedAtMs) ∧ ds.Pairwise Earlier := by
  induction ds generalizing last with
  | nil => simp [pure, Except.pure]
  | cons d ds ih =>
    simp only [List.foldlM_cons, WorkflowRun.validateDecision, bind_eq_ok, ensure_eq_ok, List.forall_mem_cons,
      List.pairwise_cons]
    constructor
    · rintro ⟨last', _, ⟨_, hreq, _, ⟨hstep, hafter, hrev, htime, hbefore, hend⟩, hnext⟩, hrest⟩
      cases hnext
      obtain ⟨hall, hord⟩ := (ih (hlast.trans htime)).mp ⟨last', hrest⟩
      refine ⟨⟨⟨⟨hreq, hstep, hrev, hlast.trans htime, hbefore, hend⟩, hafter, htime⟩, fun d' hd' => ?_⟩, ?_, hord⟩
      · obtain ⟨hv, hlt, hle⟩ := hall d' hd'
        exact ⟨hv, hafter.trans hlt, htime.trans hle⟩
      · intro d' hd'
        exact (hall d' hd').2
    · rintro ⟨⟨⟨hv, hafter, htime⟩, hall⟩, hfirst, hord⟩
      have hrest : ∀ d' ∈ ds, DecisionValid w d' ∧ d.request.revision < d'.request.revision ∧
          d.decidedAtMs ≤ d'.decidedAtMs := fun d' hd' => ⟨(hall d' hd').1, hfirst d' hd'⟩
      obtain ⟨last', hlast'⟩ := (ih (show w.createdAtMs ≤ (d.request.revision, d.decidedAtMs).2 from hv.after)).mpr ⟨hrest, hord⟩
      exact ⟨last', _, ⟨(), hv.request, (), ⟨hv.step, hafter, hv.revision, htime, hv.before, hv.last⟩, rfl⟩, hlast'⟩

theorem validateAllSteps_eq_ok :
    (∃ seen, w.steps.zipIdx.foldlM w.validateStep [] = .ok seen) ↔
      (∀ index step, w.steps[index]? = some step → StepValid w index step) ∧
        (w.steps.flatMap (·.attempts)).Nodup ∧
        ∀ jobId ∈ w.steps.flatMap (·.attempts), validateReference jobId "workflow job ID" = .ok () := by
  have hflat : w.steps.zipIdx.flatMap (·.1.attempts) = w.steps.flatMap (·.attempts) := by
    rw [← List.flatMap_map, List.zipIdx_map_fst]
  simp only [validateSteps_eq_ok, hflat, validateJobIds_eq_ok]
  constructor
  · rintro ⟨_, hsteps, hrefs, hnd, _, _⟩
    exact ⟨fun index step h => hsteps (step, index) (List.mem_zipIdx_iff_getElem?.mpr h), hnd, hrefs⟩
  · rintro ⟨hsteps, hnd, hrefs⟩
    exact ⟨_, fun e he => hsteps e.2 e.1 (List.mem_zipIdx_iff_getElem?.mp he), hrefs, hnd, by simp, rfl⟩

theorem validate_eq_ok :
    w.validate = .ok () ↔
      LocallyValid w ∧ ∃ first s, w.steps[0]? = some first ∧ Path w first s ∧ s.revision ≤ w.revision ∧
        w.replayAccepts s = true := by
  rw [← historyIsReachable_eq_ok]
  simp only [WorkflowRun.validate, bind_eq_ok, ensure_eq_ok]
  constructor
  · rintro ⟨_, hsource, _, hid, _, hagent, _, hdef, _, ⟨hrev, htimes⟩, _, hunch, _, ⟨hcur, hcomp⟩, _, herr, seen, hseen,
      _, hcount, last, hlast, reached, hreach, rfl⟩
    obtain ⟨hsteps, hnd, hrefs⟩ := validateAllSteps_eq_ok.mp ⟨seen, hseen⟩
    obtain ⟨hdec, hord⟩ := (validateDecisions_eq_ok le_rfl).mp ⟨last, hlast⟩
    exact ⟨⟨hsource, hid, hagent, hdef, hrev, htimes, hunch, hcur, hcomp, herr, hnd, hrefs, hsteps, hcount,
      fun d hd => (hdec d hd).1, hord⟩, hreach⟩
  · rintro ⟨hv, hreach⟩
    obtain ⟨seen, hseen⟩ := validateAllSteps_eq_ok.mpr ⟨hv.steps, hv.jobs, hv.references⟩
    have hdec : ∀ d ∈ w.decisions, DecisionValid w d ∧ 0 < d.request.revision ∧ w.createdAtMs ≤ d.decidedAtMs := by
      intro d hd
      have hdv := hv.decisions d hd
      refine ⟨hdv, ?_, hdv.after⟩
      exact Nat.pos_of_ne_zero (request_validate_eq_ok.mp hdv.request).1
    obtain ⟨last, hlast⟩ := (validateDecisions_eq_ok (show w.createdAtMs ≤ (0, w.createdAtMs).2 from le_rfl)).mpr
      ⟨hdec, hv.ordered⟩
    exact ⟨(), hv.source, (), hv.id, (), hv.agent, (), hv.definition, (), ⟨hv.revision, hv.times⟩, (), hv.unchanged,
      (), ⟨hv.current, hv.completed⟩, (), hv.error, seen, hseen, (), hv.count, last, hlast, true, hreach, rfl⟩

end AnimaCore.Workflows
