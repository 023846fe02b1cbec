import AnimaCore.Workflows.Replay

/-!
# AnimaCore.Workflows.Operations — what one call does

`Effect w call w'` lists what a call that changes the run can do; `method_eq_changed` says that the five operations do
exactly that, from a run that validates, and `call_eq` that every other call leaves the run as it was.

`Onwards w w'`: the run `w'` keeps the completed steps, the saved attempts and the decisions of `w`.
-/

namespace AnimaCore.Workflows

open Lib

variable {w w' w'' : WorkflowRun} {call : Call}

theorem nextRevision_eq_ok {now revision : ℕ} :
    w.nextRevision now = .ok revision ↔ w.updatedAtMs ≤ now ∧ w.revision + 1 < 2 ^ 64 ∧ revision = w.revision + 1 := by
  simp [WorkflowRun.nextRevision]

def Call.now : Call → ℕ
  | .attachJob _ now | .completeTask _ now | .needsReview _ now | .resume _ now | .cancel _ now => now

/-- What a call that changes the run asks for, and what it leaves. -/
inductive Effect (w : WorkflowRun) : Call → WorkflowRun → Prop
  | attachJob {jobId : String} {now : ℕ} {step : WorkflowStep}
      (href : validateReference jobId "workflow job ID" = .ok ()) (hrun : w.status = .running)
      (hstep : w.steps[w.currentStep]? = some step) (hpending : step.status = .pending)
      (hmore : step.attempt < maxWorkflowAttempts) (hnew : ∀ other ∈ w.steps, jobId ∉ other.attempts) :
      Effect w (.attachJob jobId now) (w.attached jobId now (w.revision + 1))
  | completeTask {result : String} {now : ℕ} {step : WorkflowStep} (hrun : w.status = .running)
      (hstep : w.steps[w.currentStep]? = some step) (hrunning : step.status = .running)
      (hsize : result.utf8ByteSize ≤ maxWorkflowResultBytes) :
      Effect w (.completeTask result now)
        { w.advanced (some result) with revision := w.revision + 1, updatedAtMs := now }
  | needsReview {error : String} {now : ℕ} {step : WorkflowStep} (hrun : w.status = .running)
      (hstep : w.steps[w.currentStep]? = some step) (hopen : step.status = .pending ∨ step.status = .running)
      (herror : trimmedEmpty error = false ∧ error.utf8ByteSize ≤ maxWorkflowResultBytes) :
      Effect w (.needsReview error now) (w.reviewed error now (w.revision + 1))
  | resume {request : WorkflowResumeRequest} {now : ℕ} {step : WorkflowStep}
      (hfresh : ∀ d ∈ w.decisions, d.request.revision ≠ request.revision) (hrev : request.revision = w.revision)
      (hrequest : request.validate = .ok ()) (hcount : w.decisions.length < maxWorkflowDecisions)
      (hawaits : w.awaits request.action = true) (hstep : w.steps[w.currentStep]? = some step)
      (hretry : request.action = .retry → step.attempt < maxWorkflowAttempts) :
      Effect w (.resume request now) (w.decided request now (w.revision + 1))
  | cancel {now : ℕ} (hopen : w.status ≠ .cancelled) (hleft : w.status ≠ .completed) :
      Effect w (.cancel w.revision now) (w.cancelled now (w.revision + 1))

/-- What every call checks before it changes the run. -/
def Admits (w : WorkflowRun) (call : Call) : Prop :=
  w.validate = .ok () ∧ w.updatedAtMs ≤ call.now ∧ w.revision + 1 < 2 ^ 64

theorem checkRetry_eq_ok {request : WorkflowResumeRequest} {step : WorkflowStep}
    (hstep : w.steps[w.currentStep]? = some step) :
    w.checkRetry request = .ok () ↔ (request.action = .retry → step.attempt < maxWorkflowAttempts) := by
  unfold WorkflowRun.checkRetry
  by_cases h : request.action = .retry
  · simp [h, hstep, okOr, bind, Except.bind]
  · simp [h]

theorem find_eq_none {request : WorkflowResumeRequest} :
    w.decisions.find? (fun saved => saved.request.revision == request.revision) = none ↔
      ∀ d ∈ w.decisions, d.request.revision ≠ request.revision := by
  simp

section

variable {jobId result error : String} {now revision : ℕ} {request : WorkflowResumeRequest} {u : Unit}

theorem attachJob_eq_ok :
    (WorkflowRun.attachJob jobId now).call w = (.ok u, w') ↔
      Admits w (.attachJob jobId now) ∧ Effect w (.attachJob jobId now) w' := by
  simp only [WorkflowRun.attachJob, Method.get_bind_call, Method.check_bind_eq_ok, Method.set_bind_call,
    Method.call_pure, ensure_eq_ok, okOr_eq_ok, nextRevision_eq_ok, Prod.mk.injEq, List.any_eq_false,
    List.contains_iff_mem]
  constructor
  · rintro ⟨_, hv, _, href, _, hrun, step, hstep, _, ⟨hp, hm⟩, _, hnew, _, ⟨hnow, hrev, rfl⟩, _, rfl⟩
    exact ⟨⟨hv, hnow, hrev⟩, .attachJob href hrun hstep hp hm hnew⟩
  · rintro ⟨⟨hv, hnow, hrev⟩, h⟩
    cases h with
    | attachJob href hrun hstep hp hm hnew =>
      exact ⟨(), hv, (), href, (), hrun, _, hstep, (), ⟨hp, hm⟩, (), hnew, _, ⟨hnow, hrev, rfl⟩, trivial, rfl⟩

theorem completeTask_eq_ok :
    (WorkflowRun.completeTask result now).call w = (.ok u, w') ↔
      Admits w (.completeTask result now) ∧ Effect w (.completeTask result now) w' := by
  simp only [WorkflowRun.completeTask, Method.get_bind_call, Method.check_bind_eq_ok, Method.set_bind_call,
    Method.call_pure, ensure_eq_ok, okOr_eq_ok, nextRevision_eq_ok, Prod.mk.injEq]
  constructor
  · rintro ⟨_, hv, _, hrun, step, hstep, _, hr, _, hsize, _, ⟨hnow, hrev, rfl⟩, _, rfl⟩
    exact ⟨⟨hv, hnow, hrev⟩, .completeTask hrun hstep hr hsize⟩
  · rintro ⟨⟨hv, hnow, hrev⟩, h⟩
    cases h with
    | completeTask hrun hstep hr hsize =>
      exact ⟨(), hv, (), hrun, _, hstep, (), hr, (), hsize, _, ⟨hnow, hrev, rfl⟩, trivial, rfl⟩

theorem needsReview_eq_ok :
    (WorkflowRun.needsReview error now).call w = (.ok u, w') ↔
      Admits w (.needsReview error now) ∧ Effect w (.needsReview error now) w' := by
  simp only [WorkflowRun.needsReview, Method.get_bind_call, Method.check_bind_eq_ok, Method.set_bind_call,
    Method.call_pure, ensure_eq_ok, okOr_eq_ok, nextRevision_eq_ok, Prod.mk.injEq]
  constructor
  · rintro ⟨_, hv, _, hrun, step, hstep, _, hopen, _, herror, _, ⟨hnow, hrev, rfl⟩, _, rfl⟩
    exact ⟨⟨hv, hnow, hrev⟩, .needsReview hrun hstep hopen herror⟩
  · rintro ⟨⟨hv, hnow, hrev⟩, h⟩
    cases h with
    | needsReview hrun hstep hopen herror =>
      exact ⟨(), hv, (), hrun, _, hstep, (), hopen, (), herror, _, ⟨hnow, hrev, rfl⟩, trivial, rfl⟩

theorem resume_eq_ok_true :
    (WorkflowRun.resume request now).call w = (.ok true, w') ↔
      Admits w (.resume request now) ∧ Effect w (.resume request now) w' := by
  simp only [WorkflowRun.resume, Method.get_bind_call, Method.check_bind_eq_ok]
  cases hfind : w.decisions.find? (fun saved => saved.request.revision == request.revision) with
  | some saved =>
    constructor
    · rintro ⟨_, hv, h⟩
      simp only [Method.call_check, Prod.mk.injEq, bind_eq_ok] at h
      obtain ⟨⟨_, _, h⟩, _⟩ := h
      cases h
    · rintro ⟨_, h⟩
      cases h with
      | resume hfresh hrev hrequest hcount hawaits hstep hretry =>
        rw [find_eq_none.mpr hfresh] at hfind
        cases hfind
  | none =>
    simp only [Method.check_bind_eq_ok, Method.set_bind_call, Method.call_pure, ensure_eq_ok, okOr_eq_ok,
      nextRevision_eq_ok, Prod.mk.injEq]
    constructor
    · rintro ⟨_, hv, _, hrev, _, hreq, _, hcount, _, hawaits, _, hretry, _, ⟨hnow, hnext, rfl⟩, step, hstep, _, rfl⟩
      exact ⟨⟨hv, hnow, hnext⟩, .resume (find_eq_none.mp hfind) hrev hreq hcount hawaits hstep
        ((checkRetry_eq_ok hstep).mp hretry)⟩
    · rintro ⟨⟨hv, hnow, hnext⟩, h⟩
      cases h with
      | resume hfresh hrev hreq hcount hawaits hstep hretry =>
        exact ⟨(), hv, (), hrev, (), hreq, (), hcount, (), hawaits, (), (checkRetry_eq_ok hstep).mpr hretry, _,
          ⟨hnow, hnext, rfl⟩, _, hstep, trivial, rfl⟩

theorem cancel_eq_ok_true :
    (WorkflowRun.cancel revision now).call w = (.ok true, w') ↔
      Admits w (.cancel revision now) ∧ Effect w (.cancel revision now) w' := by
  simp only [WorkflowRun.cancel, Method.get_bind_call, Method.check_bind_eq_ok]
  by_cases hcancel : w.status = .cancelled
  · rw [if_pos hcancel]
    constructor
    · rintro ⟨_, hv, h⟩
      simp only [Method.call_check, Prod.mk.injEq, bind_eq_ok] at h
      obtain ⟨⟨_, _, h⟩, _⟩ := h
      cases h
    · rintro ⟨_, h⟩
      cases h with
      | cancel hopen hleft => exact absurd hcancel hopen
  · rw [if_neg hcancel]
    simp only [Method.check_bind_eq_ok, Method.set_bind_call, Method.call_pure, ensure_eq_ok, nextRevision_eq_ok,
      Prod.mk.injEq]
    constructor
    · rintro ⟨_, hv, _, rfl, _, hleft, _, ⟨hnow, hnext, rfl⟩, _, rfl⟩
      exact ⟨⟨hv, hnow, hnext⟩, .cancel hcancel hleft⟩
    · rintro ⟨⟨hv, hnow, hnext⟩, h⟩
      cases h with
      | cancel hopen hleft => exact ⟨(), hv, (), rfl, (), hleft, _, ⟨hnow, hnext, rfl⟩, trivial, rfl⟩

end

theorem then_true_eq_ok {m : WorkflowMethod Unit} :
    (do m; pure true : WorkflowMethod Bool).call w = (.ok true, w') ↔ m.call w = (.ok (), w') := by
  rw [Method.bind_call]
  rcases m.call w with ⟨_ | u, w₁⟩
  · simp
  · simp

theorem method_eq_changed : call.method.call w = (.ok true, w') ↔ Admits w call ∧ Effect w call w' := by
  cases call with
  | attachJob jobId now => exact then_true_eq_ok.trans attachJob_eq_ok
  | completeTask result now => exact then_true_eq_ok.trans completeTask_eq_ok
  | needsReview error now => exact then_true_eq_ok.trans needsReview_eq_ok
  | resume request now => exact resume_eq_ok_true
  | cancel revision now => exact cancel_eq_ok_true

theorem method_guarded (call : Call) : Method.Guarded id call.method := by
  cases call with
  | attachJob jobId now =>
    exact .then_true (.get fun w => .check fun _ => .check fun _ => .check fun _ => .check fun step => .check fun _ =>
      .check fun _ => .check fun revision => .assign rfl _)
  | completeTask result now =>
    exact .then_true (.get fun w => .check fun _ => .check fun _ => .check fun step => .check fun _ => .check fun _ =>
      .check fun revision => .assign rfl _)
  | needsReview error now =>
    exact .then_true (.get fun w => .check fun _ => .check fun _ => .check fun step => .check fun _ => .check fun _ =>
      .check fun revision => .assign rfl _)
  | resume request now =>
    refine .get fun w => .check fun _ => ?_
    split
    · exact .checked _
    · exact .check fun _ => .check fun _ => .check fun _ => .check fun _ => .check fun _ => .check fun revision =>
        .check fun step => .assign rfl _
  | cancel revision now =>
    refine .get fun w => .check fun _ => .ite (.checked _) ?_
    exact .check fun _ => .check fun _ => .check fun next => .assign rfl _

theorem step_cases (w : WorkflowRun) (call : Call) :
    step w call = w ∨ ((call.method.call w).1 = .ok true ∧ Admits w call ∧ Effect w call (step w call)) := by
  rcases method_guarded call w with h | ⟨b, hb, hchanged⟩
  · exact .inl h
  · have hb' : (call.method.call w).1 = .ok true := by rw [hb, show b = true from hchanged]
    exact .inr ⟨hb', method_eq_changed.mp (Prod.ext hb' rfl)⟩

/-! ## The runs the operations build -/

theorem activation_snd (kind : WorkflowStepKind) : (WorkflowRun.activation kind).2 = initialPhase kind := by
  cases kind <;> rfl

/-- The step a run has at `index` after its current one is completed with `result`. -/
def advancedStep (current : ℕ) (result : Option String) (index : ℕ) (step : WorkflowStep) : WorkflowStep :=
  if index = current then { step with result := result, status := .completed }
  else if index = current + 1 then { step with status := initialPhase step.kind }
  else step

/-- The status of a run that has just come to the step at `index`. -/
def statusAt (steps : List WorkflowStep) (index : ℕ) : WorkflowStatus :=
  (steps[index]?.map fun step => (WorkflowRun.activation step.kind).1).getD .completed

theorem activateCurrentStep_eq (w : WorkflowRun) :
    w.activateCurrentStep =
      { w with
        status := statusAt w.steps w.currentStep
        steps := w.steps.modify w.currentStep fun step => { step with status := initialPhase step.kind } } := by
  unfold WorkflowRun.activateCurrentStep statusAt
  cases h : w.steps[w.currentStep]? with
  | none =>
    have hle := List.getElem?_eq_none_iff.mp h
    simp [List.modify_eq_self hle]
  | some step =>
    have hsteps : w.steps.modify w.currentStep (fun current => { current with status := (WorkflowRun.activation step.kind).2 }) =
        w.steps.modify w.currentStep fun step => { step with status := initialPhase step.kind } := by
      apply List.ext_getElem?
      intro i
      rw [List.getElem?_modify, List.getElem?_modify]
      by_cases hi : w.currentStep = i
      · subst hi
        simp [h, activation_snd]
      · simp [hi]
    simp only [WorkflowRun.setStep, hsteps, Option.map_some, Option.getD_some]

theorem advanced_eq (w : WorkflowRun) (result : Option String) :
    w.advanced result =
      { w with
        status := statusAt w.steps (w.currentStep + 1)
        currentStep := w.currentStep + 1
        steps := w.steps.mapIdx (advancedStep w.currentStep result) } := by
  unfold WorkflowRun.advanced
  rw [activateCurrentStep_eq]
  have hstatus : ∀ f, statusAt (w.steps.modify w.currentStep f) (w.currentStep + 1) =
      statusAt w.steps (w.currentStep + 1) := by
    intro f
    simp [statusAt]
  simp only [WorkflowRun.setStep, hstatus, WorkflowRun.mk.injEq, true_and, and_true]
  apply List.ext_getElem?
  intro i
  simp only [List.getElem?_modify, List.getElem?_mapIdx]
  cases w.steps[i]? with
  | none => simp
  | some step =>
    by_cases hi : i = w.currentStep
    · subst hi
      simp [advancedStep]
    · by_cases hi' : i = w.currentStep + 1
      · simp [advancedStep, hi']
      · have h1 : w.currentStep ≠ i := Ne.symm hi
        have h2 : w.currentStep + 1 ≠ i := Ne.symm hi'
        simp [advancedStep, hi, hi', h1, h2]

end AnimaCore.Workflows
