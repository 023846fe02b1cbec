import AnimaCore.Execution.Approvals

/-!
# AnimaCore.Execution.Lifecycle — the states of a run

A commit names its target run and `valid_command_transition` compares it with what the command would make of the stored
run; for `Start` and `ResumeRecovery` it only looks at the target's state and prerequisites.

* `Lifecycle commit r r'`: the edges of the lifecycle graph, with what the commit has to bring along.
* `RunMove`: what a call does to the stored run, from before it is stored.
-/

namespace AnimaCore

open Lib

variable {digests : Digests} {s : State} {ownerId runId : Uuid} {op : Op} {commit : ExecutionCommit} {nowMs : ℕ}
  {patch : CommitPatch} {r r' : Run}

/-! ## The graph -/

inductive Lifecycle (commit : ExecutionCommit) (r r' : Run) : Prop
  | start (hfrom : r.state = .queued) (hto : r'.state = .running)
  | leave (hfrom : r.state = .running)
      (hto : r'.state ∈ [.waitingForApproval, .paused, .recoveryRequired, .completed, .failed, .cancelled])
  -- the claim of the commit is for the request the run waits for
  | approve (hfrom : r.state = .waitingForApproval) (hto : r'.state = .running) (mutation : ApprovalGrantMutation)
      (hclaim : commit.approval = some mutation)
      (hpending : r.pendingApproval = some mutation.claim.binding.decision.request)
  | endWait (hfrom : r.state = .waitingForApproval) (hto : r'.state = .paused ∨ r'.state = .cancelled)
  | resume (hfrom : r.state = .paused) (hreason : r.pauseReason ≠ some .policyDenied) (hto : r'.state = .running)
  | cancelDenied (hfrom : r.state = .paused) (hreason : r.pauseReason = some .policyDenied)
      (hto : r'.state = .cancelled)
  -- the binding of the command is the one the run was stored with
  | recover (hfrom : r.state = .recoveryRequired) (hto : r'.state = .running) (binding : RecoveryResumeBinding)
      (hcommand : commit.command.recoveryBinding = some binding) (hstored : r.recoveryBinding = some binding)
  | giveUp (hfrom : r.state = .recoveryRequired) (hto : r'.state = .failed ∨ r'.state = .cancelled)

/-- Prerequisites are present exactly in the states that need them. -/
structure Run.PrerequisitesExact (r : Run) : Prop where
  approval : r.pendingApproval.isSome ↔ r.state = .waitingForApproval
  recovery : r.recoveryPause.isSome ↔ r.state = .recoveryRequired
  pause : r.pauseReason.isSome ↔ r.state = .paused

theorem Run.prerequisitesExact (r : Run) : r.PrerequisitesExact := by
  have h := r.valid
  simp only [RunWire.validate, bind_eq_ok, ensure_eq_ok] at h
  obtain ⟨_, _, _, _, _, _, _, _, _, ⟨hpause, _⟩, hwait, hrecovery, _⟩ := h
  exact ⟨hwait.symm, hrecovery.symm, hpause.symm⟩

/-! ## Transitions -/

theorem Run.state_of_parts {state : RunState} (h : fromParts (r.parts state) = .ok r') : r'.state = state :=
  congrArg RunWire.state (fromParts_eq_ok h)

theorem Run.transition_eq_ok {target : RunState} {reason : Option RunPauseReason}
    (h : r.transition target reason = .ok r') : legalTransition r.state target = true ∧ r'.state = target := by
  simp only [transition, bind_eq_ok, ensure_eq_ok] at h
  obtain ⟨_, ⟨_, hlegal⟩, _, _, _, _, _, _, h⟩ := h
  exact ⟨hlegal, congrArg RunWire.state (fromParts_eq_ok h)⟩

theorem Run.running_of_transition {target : RunState} {reason : Option RunPauseReason}
    (h : r.transition target reason = .ok r') (ht : target.isTerminal = true) :
    r.state = .running ∧ r'.state = target := by
  obtain ⟨hlegal, hstate⟩ := transition_eq_ok h
  refine ⟨?_, hstate⟩
  cases hr : r.state <;> cases target <;> simp_all [legalTransition, RunState.isTerminal]

theorem Run.paused_of_transition {reason : Option RunPauseReason} (h : r.transition .paused reason = .ok r') :
    (r.state = .running ∨ r.state = .waitingForApproval) ∧ r'.state = .paused := by
  obtain ⟨hlegal, hstate⟩ := transition_eq_ok h
  refine ⟨?_, hstate⟩
  cases hr : r.state <;> simp_all [legalTransition]

theorem Run.resume_eq_ok (h : r.resume = .ok r') :
    r.state = .paused ∧ r.pauseReason ≠ some .policyDenied ∧ r'.state = .running := by
  unfold resume at h
  split at h
  · cases h
  · cases h
  · next hpaused =>
    split_ifs at h with hreason
    exact ⟨hpaused, hreason, state_of_parts h⟩
  · cases h

theorem Run.resolveRecoveryTerminal_eq_ok {resolution : RecoveryTerminalResolution}
    (h : r.resolveRecoveryTerminal resolution = .ok r') : r.state = .recoveryRequired ∧
      (resolution = .cancel → r'.state = .cancelled) ∧ (resolution = .fail → r'.state = .failed) := by
  simp only [resolveRecoveryTerminal, bind_eq_ok, ensure_eq_ok] at h
  obtain ⟨_, ⟨hstate, _⟩, h⟩ := h
  refine ⟨hstate, ?_, ?_⟩
  · rintro rfl
    exact state_of_parts h
  · rintro rfl
    exact state_of_parts h

theorem Run.cancelAtBoundary_eq_ok (h : r.cancelAtBoundary = .ok r') : Lifecycle commit r r' := by
  unfold cancelAtBoundary at h
  split at h
  · next hstate =>
    exact .leave hstate (by simp [(running_of_transition h rfl).2])
  · next hstate => exact .endWait hstate (.inr (state_of_parts h))
  · next hstate => exact .giveUp hstate (.inr ((resolveRecoveryTerminal_eq_ok h).2.1 rfl))
  · next hstate =>
    split_ifs at h with hreason
    exact .cancelDenied hstate hreason (state_of_parts h)
  · cases h

theorem Run.applyResumeCommand_running {command : RuntimeCommand} {claim : Option ApprovalResumeClaim}
    {outcome : ApprovalResumeOutcome} (h : r.applyResumeCommand command claim none = .ok outcome) :
    outcome.run.state = .running := by
  simp only [applyResumeCommand, bind_eq_ok] at h
  obtain ⟨_, _, _, _, run, hrun, h⟩ := h
  cases h
  exact state_of_parts hrun

theorem lifecycle_of_kind
    (h : validKindTransition r r' commit.command commit.approval commit.dispatchGrant commit.attempts = true) :
    (r.state = .running ∧ r' = r) ∨ Lifecycle commit r r' := by
  unfold validKindTransition at h
  split at h
  · -- `Start` only looks at the two states
    simp only [Bool.and_eq_true, beq_iff_eq] at h
    exact .inr (.start h.1.2 h.2)
  · simp only [Bool.and_eq_true, beq_iff_eq, decide_eq_true_eq] at h
    exact .inl ⟨h.1.2, h.2.symm⟩
  · simp only [Bool.and_eq_true, beq_iff_eq, decide_eq_true_eq] at h
    exact .inl ⟨h.1.2, h.2.symm⟩
  · simp only [Bool.and_eq_true, Option.any_eq_true, decide_eq_true_eq] at h
    obtain ⟨_, request, _, hwait⟩ := h
    have hto : r'.state = .waitingForApproval := by
      rw [r'.waiting_iff, (Run.waitForApproval_eq_ok hwait).2]
      rfl
    exact .inr (.leave (Run.waitForApproval_eq_ok hwait).1 (by simp [hto]))
  · simp only [Bool.and_eq_true, Option.any_eq_true, decide_eq_true_eq] at h
    obtain ⟨_, recovery, _, _, hrequire⟩ := h
    simp only [Run.requireRecovery, bind_eq_ok, ensure_eq_ok] at hrequire
    obtain ⟨_, ⟨hfrom, _⟩, hrequire⟩ := hrequire
    have hto : r'.state = .recoveryRequired := congrArg RunWire.state (Run.fromParts_eq_ok hrequire)
    exact .inr (.leave hfrom (by simp [hto]))
  · simp only [Bool.and_eq_true, Option.any_eq_true, decide_eq_true_eq] at h
    obtain ⟨_, reason, _, hpause⟩ := h
    obtain ⟨hrunning | hwaiting, hto⟩ := Run.paused_of_transition hpause
    · exact .inr (.leave hrunning (by simp [hto]))
    · exact .inr (.endWait hwaiting (.inl hto))
  · simp only [Bool.and_eq_true, decide_eq_true_eq] at h
    obtain ⟨hfrom, hreason, hto⟩ := Run.resume_eq_ok h.2
    exact .inr (.resume hfrom hreason hto)
  · cases h
  · split at h
    · next outcome hresume =>
      rw [decide_eq_true_eq] at h
      obtain ⟨claim, hclaim, hpending, _⟩ := Run.applyResumeCommand_approval hresume
      obtain ⟨mutation, hmutation, rfl⟩ := Option.map_eq_some_iff.mp hclaim
      have hfrom : r.state = .waitingForApproval := by
        rw [r.waiting_iff, hpending]
        rfl
      exact .inr (.approve hfrom (by rw [← h]; exact Run.applyResumeCommand_running hresume) mutation hmutation hpending)
    · cases h
  · -- `ResumeRecovery` only looks at the target's state and prerequisites
    simp only [Bool.and_eq_true, beq_iff_eq, Option.any_eq_true, decide_eq_true_eq] at h
    obtain ⟨⟨⟨⟨⟨⟨_, hfrom⟩, pause, _, binding, hcommand, ⟨hstored, _⟩, _⟩, hto⟩, _⟩, _⟩, _⟩ := h
    exact .inr (.recover hfrom hto binding hcommand hstored)
  · simp only [Bool.and_eq_true, decide_eq_true_eq] at h
    obtain ⟨hfrom, hto⟩ := Run.running_of_transition h.2 rfl
    exact .inr (.leave hfrom (by simp [hto]))
  · rw [Bool.and_eq_true] at h
    obtain ⟨_, h⟩ := h
    split at h
    · obtain ⟨hfrom, hto⟩ := Run.running_of_transition (of_decide_eq_true h) rfl
      exact .inr (.leave hfrom (by simp [hto]))
    · next hfrom =>
      exact .inr (.giveUp hfrom (.inl ((Run.resolveRecoveryTerminal_eq_ok (of_decide_eq_true h)).2.2 rfl)))
    · cases h
  · simp only [Bool.and_eq_true, decide_eq_true_eq] at h
    exact .inr (Run.cancelAtBoundary_eq_ok h.2)

/-! ## Runs -/

inductive RunMove (ownerId runId : Uuid) (op : Op) : Option StoredRun → Option StoredRun → Prop
  | absent : RunMove ownerId runId op none none
  | create {stored : StoredRun} (hqueued : stored.run.state = .queued) : RunMove ownerId runId op none (some stored)
  | idle {stored : StoredRun} : RunMove ownerId runId op (some stored) (some stored)
  -- an accepted commit on the run keeps a running run as it is, or takes one edge
  | progress {stored stored' : StoredRun} {commit : ExecutionCommit} {nowMs : ℕ}
      (hop : op = .commit ownerId commit nowMs) (hrun : commit.lease.runId = runId)
      (hrunning : stored.run.state = .running) (hsame : stored'.run = stored.run) :
      RunMove ownerId runId op (some stored) (some stored')
  | move {stored stored' : StoredRun} {commit : ExecutionCommit} {nowMs : ℕ}
      (hop : op = .commit ownerId commit nowMs) (hrun : commit.lease.runId = runId)
      (hedge : Lifecycle commit stored.run stored'.run) : RunMove ownerId runId op (some stored) (some stored')

variable (digests) in
theorem storedRun_step_of_none (h : s.storedRun (ownerId, runId) = none) (op : Op) {stored : StoredRun}
    (hnew : (step digests s op).storedRun (ownerId, runId) = some stored) : stored.run.state = .queued := by
  have hunchanged : ∀ {s' : State}, s'.storedRun (ownerId, runId) = s.storedRun (ownerId, runId) →
      s'.storedRun (ownerId, runId) ≠ some stored := by
    intro s' hsame hsome
    rw [hsame, h] at hsome
    cases hsome
  obtain hsame | hacc := step_cases digests s op
  · exact absurd hnew (hunchanged (by rw [hsame]))
  · generalize step digests s op = s' at hacc hnew
    cases hacc with
    | applyPolicy _ _ => exact absurd hnew (hunchanged rfl)
    | applyGrant _ _ => exact absurd hnew (hunchanged rfl)
    | createRun hc hst =>
      rw [storedRun_createdState] at hnew
      split_ifs at hnew with hkey
      · cases hnew
        rw [hst]
        exact (checkCreateRun_eq_ok hc).queued
      · exact absurd hnew (by rw [h]; simp)
    | retryRun hs _ hc =>
      rw [storedRun_writeRetryRun] at hnew
      split_ifs at hnew with hkey
      · cases hnew
        exact congrArg RunWire.state (checkRetryRun_eq_ok hs hc).stored_run
      · exact absurd hnew (by rw [h]; simp)
    | acquireLease _ => exact absurd hnew (hunchanged (storedRun_setLease _ _))
    | renewLease _ => exact absurd hnew (hunchanged (storedRun_setLease _ _))
    | commit hcom =>
      obtain ⟨b⟩ := buildCommitPatch_eq_ok hcom.built
      rw [b.storedRun_after] at hnew
      split_ifs at hnew with hkey
      · -- a commit is on a stored run
        rw [← hkey, storedRun_of_runs b.found] at h
        cases h
      · exact absurd hnew (by rw [h]; simp)

variable (digests) in
theorem runMove_step (s : State) (ownerId runId : Uuid) (op : Op) :
    RunMove ownerId runId op (s.storedRun (ownerId, runId)) ((step digests s op).storedRun (ownerId, runId)) := by
  cases hbefore : s.storedRun (ownerId, runId) with
  | none =>
    cases hafter : (step digests s op).storedRun (ownerId, runId) with
    | none => exact .absent
    | some stored => exact .create (storedRun_step_of_none digests hbefore op hafter)
  | some stored =>
    obtain hkept | ⟨commit, nowMs, patch, rfl, rfl, hcom⟩ := storedRun_step_cases digests hbefore op
    · rw [hkept]
      exact .idle
    · obtain ⟨b⟩ := buildCommitPatch_eq_ok hcom.built
      rw [storedRun_of_runs b.found] at hbefore
      cases hbefore
      rw [hcom.step_eq, b.storedRun_after, if_pos rfl]
      obtain ⟨hrunning, hsame⟩ | hedge := lifecycle_of_kind b.kind_cases
      · exact .progress rfl rfl hrunning (b.stored_run.trans hsame)
      · exact .move rfl rfl (by rw [b.stored_run]; exact hedge)

/-- What never changes of a stored run, and what a terminal one keeps. -/
structure RunKept (r r' : Run) : Prop where
  id : r'.id = r.id
  sessionId : r'.sessionId = r.sessionId
  definitionId : r'.definitionId = r.definitionId
  definitionVersion : r'.definitionVersion = r.definitionVersion
  final : r.state.isTerminal = true → r' = r

theorem runKept_commit (b : Built digests s ownerId commit nowMs patch) (h : RunKept r b.aggregate.stored.run) :
    RunKept r (b.aggregate.patched patch).stored.run := by
  obtain ⟨hid, hsession, hdefinition, hversion, _, _, hlive⟩ := b.same_run
  rw [RunAggregate.patched_stored, b.stored_run]
  refine ⟨hid ▸ h.id, hsession ▸ h.sessionId, hdefinition ▸ h.definitionId, hversion ▸ h.definitionVersion, ?_⟩
  intro hfinal
  rw [h.final hfinal, hfinal] at hlive
  cases hlive

theorem runKept_of_run (digests : Digests) (s : State) (ops : List Op) {stored : StoredRun}
    (h : s.storedRun (ownerId, runId) = some stored) :
    ∃ stored', (run (step digests) s ops).storedRun (ownerId, runId) = some stored' ∧ RunKept stored.run stored'.run := by
  obtain ⟨a, ha, rfl⟩ := Option.map_eq_some_iff.mp h
  obtain ⟨a', ha', hkept⟩ := run_kept (P := fun a' => RunKept a.stored.run a'.stored.run)
    (@reaches_run _ _ (step digests) s ops) (fun _ _ hk => hk) (fun _ _ _ _ _ b hk => runKept_commit b hk) ha
    ⟨rfl, rfl, rfl, rfl, fun _ => rfl⟩
  exact ⟨a'.stored, storedRun_of_runs ha', hkept⟩

/-- **Run lifecycle.**  Along every sequence of calls, each call moves the stored run of a key along the lifecycle graph:
the run is queued when it is first stored, an accepted commit keeps a running run or takes one edge, and other calls keep
it.  Identity, session and definition never change, a terminal run is final, and prerequisites are present exactly in the
states that need them. -/
theorem run_lifecycle (digests : Digests) (ownerId runId : Uuid) (ops : List Op) :
    (∀ pre op post, ops = pre ++ op :: post →
      RunMove ownerId runId op ((run (step digests) State.empty pre).storedRun (ownerId, runId))
        ((run (step digests) State.empty (pre ++ [op])).storedRun (ownerId, runId))) ∧
    (∀ pre post stored, ops = pre ++ post →
      (run (step digests) State.empty pre).storedRun (ownerId, runId) = some stored →
      stored.run.PrerequisitesExact ∧
        ∃ stored', (run (step digests) State.empty ops).storedRun (ownerId, runId) = some stored' ∧
          RunKept stored.run stored'.run) := by
  constructor
  · intro pre op post _
    rw [run_append]
    exact runMove_step digests _ ownerId runId op
  · rintro pre post stored rfl hstored
    rw [run_append]
    exact ⟨stored.run.prerequisitesExact, runKept_of_run digests _ post hstored⟩

/-- The sample run is queued by its creation and running after its first commit. -/
theorem sample_run_started :
    ((run (step Sample.digests) State.empty [Sample.createRun, Sample.acquireLease]).storedRun (Sample.ownerId,
        Sample.runId)).map (·.run.state) = some .queued ∧
      ((run (step Sample.digests) State.empty ([Sample.createRun, Sample.acquireLease] ++
        [.commit Sample.ownerId Sample.start 10])).storedRun (Sample.ownerId, Sample.runId)).map (·.run.state) =
          some .running ∧
      RunMove Sample.ownerId Sample.runId (.commit Sample.ownerId Sample.start 10)
        ((run (step Sample.digests) State.empty [Sample.createRun, Sample.acquireLease]).storedRun (Sample.ownerId,
          Sample.runId))
        ((run (step Sample.digests) State.empty ([Sample.createRun, Sample.acquireLease] ++
          [.commit Sample.ownerId Sample.start 10])).storedRun (Sample.ownerId, Sample.runId)) :=
  ⟨by decide +kernel, by decide +kernel, (run_lifecycle Sample.digests Sample.ownerId Sample.runId
    [Sample.createRun, Sample.acquireLease, .commit Sample.ownerId Sample.start 10]).1 _ _ [] rfl⟩

end AnimaCore
