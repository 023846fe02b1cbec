import AnimaCore.Workflows.Reachability

/-!
# AnimaCore.Workflows.Decisions — a run keeps its history, and a decision counts once

A run the program holds was made by `new`, may have been given the template it came from, and went through any calls
(`Live`).  It validates, so every call on it is one of `step_cases`: from there `history_kept` follows the whole run.
-/

namespace AnimaCore.Workflows

open Lib

variable {w w' : WorkflowRun} {call : Call}

/-! ## The runs of the program -/

/-- The runs the program can hold: `new`, perhaps with the template the definition was made from, and any calls. -/
def Live (w : WorkflowRun) : Prop :=
  ∃ id agentId input now source w₀ calls, WorkflowRun.new id agentId input now = .ok w₀ ∧
    { w₀ with sourceTemplate := source }.validate = .ok () ∧ w = run step { w₀ with sourceTemplate := source } calls

theorem step_validate (hv : w.validate = .ok ()) (call : Call) : (step w call).validate = .ok () := by
  rcases step_cases w call with hsame | ⟨_, hadmits, heffect⟩
  · rw [hsame]
    exact hv
  · exact heffect.validate hadmits

theorem run_onwards (hv : w.validate = .ok ()) (calls : List Call) :
    (run step w calls).validate = .ok () ∧ Onwards w (run step w calls) := by
  refine run_induction step w (P := fun _ v => v.validate = .ok () ∧ Onwards w v) calls ⟨hv, .refl w⟩ ?_
  rintro l call ⟨hval, hon⟩
  refine ⟨step_validate hval call, hon.trans ?_⟩
  rcases step_cases (run step w l) call with hsame | ⟨_, _, heffect⟩
  · rw [hsame]
    exact .refl _
  · exact heffect.onwards (validate_eq_ok.mp hval).1

theorem Live.validate (h : Live w) : w.validate = .ok () := by
  obtain ⟨id, agentId, input, now, source, w₀, calls, _, hval, rfl⟩ := h
  exact (run_onwards hval calls).1

/-! ## Decisions -/

theorem LocallyValid.decision_unique (hv : LocallyValid w) {d d' : WorkflowDecision} (hd : d ∈ w.decisions)
    (hd' : d' ∈ w.decisions) (hrev : d.request.revision = d'.request.revision) : d = d' := by
  have hnd : (w.decisions.map fun d => d.request.revision).Nodup := by
    rw [List.nodup_iff_pairwise_ne, List.pairwise_map]
    exact hv.ordered.imp fun h => h.1.ne
  exact List.inj_on_of_nodup_map hnd hd hd' hrev

theorem resume_saved (hval : w.validate = .ok ()) {d : WorkflowDecision} (hd : d ∈ w.decisions)
    {request : WorkflowResumeRequest} (hrev : request.revision = d.request.revision) (now : ℕ) :
    (WorkflowRun.resume request now).call w =
      (if d.request = request then .ok false
        else .error (.rejected "A different workflow decision is already saved at that revision"), w) := by
  have hfind : w.decisions.find? (fun saved => saved.request.revision == request.revision) = some d := by
    cases h : w.decisions.find? (fun saved => saved.request.revision == request.revision) with
    | none => exact absurd hrev.symm (find_eq_none.mp h d hd)
    | some saved =>
      have hsaved : saved.request.revision = request.revision := by simpa using List.find?_some h
      have hmem := List.mem_of_find?_eq_some h
      rw [(validate_eq_ok.mp hval).1.decision_unique hmem hd (hsaved.trans hrev)]
  unfold WorkflowRun.resume
  rw [Method.get_bind_call, hval, Method.check_ok_bind_call, hfind]
  by_cases heq : d.request = request
  · simp only [heq, if_true, Method.call_check]
    rfl
  · simp only [heq, if_false, Method.call_check, ensure]
    rfl

theorem Effect.resume_eq {request : WorkflowResumeRequest} {now : ℕ} (h : Effect w (.resume request now) w') :
    w' = w.decided request now (w.revision + 1) := by
  cases h
  rfl

theorem resume_accepted {request : WorkflowResumeRequest} {now : ℕ}
    (h : ((WorkflowRun.resume request now).call w).1 = .ok true) :
    w.validate = .ok () ∧ ∃ d ∈ (step w (.resume request now)).decisions, d.request = request := by
  obtain ⟨hadmits, heffect⟩ := resume_eq_ok_true.mp (Prod.ext h rfl)
  refine ⟨hadmits.1, ?_⟩
  have hmem : { stepIndex := w.currentStep, request := request, decidedAtMs := now } ∈
      (w.decided request now (w.revision + 1)).decisions := by simp [WorkflowRun.decided]
  rw [← heffect.resume_eq] at hmem
  exact ⟨_, hmem, rfl⟩

theorem Onwards.mem_decisions {d : WorkflowDecision} (h : Onwards w w') (hd : d ∈ w.decisions) : d ∈ w'.decisions := by
  obtain ⟨ds, hds, _⟩ := h.decisions
  rw [hds]
  exact List.mem_append_left _ hd

/-- The call is a decision for this revision, and is accepted. -/
def decidesAt (revision : ℕ) (w : WorkflowRun) : Call → Bool
  | .resume request now =>
    request.revision == revision && match ((WorkflowRun.resume request now).call w).1 with
      | .ok b => b
      | .error _ => false
  | _ => false

theorem decidesAt_resume {revision : ℕ} (h : decidesAt revision w call = true) :
    ∃ request now, call = .resume request now ∧ request.revision = revision ∧
      ((WorkflowRun.resume request now).call w).1 = .ok true := by
  cases call with
  | resume request now =>
    simp only [decidesAt, Bool.and_eq_true, beq_iff_eq] at h
    refine ⟨request, now, rfl, h.1, ?_⟩
    cases hr : ((WorkflowRun.resume request now).call w).1 with
    | error e => simp [hr] at h
    | ok b => simpa [hr] using h.2
  | _ => simp [decidesAt] at h

theorem countAlong_saved (hval : w.validate = .ok ()) {d : WorkflowDecision} (hd : d ∈ w.decisions)
    (calls : List Call) : countAlong step (decidesAt d.request.revision) w calls = 0 := by
  induction calls generalizing w with
  | nil => rfl
  | cons call calls ih =>
    obtain ⟨hnext, hon⟩ : (step w call).validate = .ok () ∧ Onwards w (step w call) := run_onwards hval [call]
    have hnot : decidesAt d.request.revision w call = false := by
      rw [Bool.eq_false_iff]
      intro h
      obtain ⟨request, now, _, hrev, hok⟩ := decidesAt_resume h
      rw [resume_saved hval hd hrev] at hok
      split_ifs at hok
      cases hok
    rw [countAlong, hnot, ih hnext (hon.mem_decisions hd)]
    rfl

theorem countAlong_decidesAt (hval : w.validate = .ok ()) (revision : ℕ) (calls : List Call) :
    countAlong step (decidesAt revision) w calls ≤ 1 := by
  induction calls generalizing w with
  | nil => exact Nat.zero_le _
  | cons call calls ih =>
    have hnext := step_validate hval call
    cases h : decidesAt revision w call with
    | false => simpa [countAlong, h] using ih hnext
    | true =>
      obtain ⟨request, now, rfl, rfl, hok⟩ := decidesAt_resume h
      obtain ⟨_, d, hd, rfl⟩ := resume_accepted hok
      rw [countAlong, h, countAlong_saved hnext hd]
      rfl

/-- **A run keeps its history, and its decisions replay safely.**  On every run of the program: a call that fails or
returns `false` changes nothing; one that succeeds raises the revision by one and keeps the completed steps, the saved
attempts and the decisions; a decision that was accepted is answered `false` when it is sent again after any calls, any
other decision for its revision fails, and no revision is decided twice. -/
theorem history_kept (h : Live w) :
    (∀ call, (call.method.call w).1 ≠ .ok true → step w call = w) ∧
    (∀ call, (call.method.call w).1 = .ok true →
      (step w call).revision = w.revision + 1 ∧ w.decisions <+: (step w call).decisions ∧
      ∀ (i : ℕ) (before : WorkflowStep), w.steps[i]? = some before →
        ∃ after : WorkflowStep, (step w call).steps[i]? = some after ∧ before.attempts <+: after.attempts ∧
          (before.status = .completed → after = before)) ∧
    (∀ request now, ((WorkflowRun.resume request now).call w).1 = .ok true →
      ∀ calls now', ((WorkflowRun.resume request now').call (run step (step w (.resume request now)) calls)).1 = .ok false ∧
        ∀ other, other.revision = request.revision → other ≠ request →
          ∃ e, ((WorkflowRun.resume other now').call (run step (step w (.resume request now)) calls)).1 = .error e) ∧
    ∀ revision calls, countAlong step (decidesAt revision) w calls ≤ 1 := by
  have hval := h.validate
  refine ⟨fun call hne => ?_, fun call hok => ?_, fun request now hok calls now' => ?_, countAlong_decidesAt hval⟩
  · rcases step_cases w call with hsame | ⟨hok, _⟩
    · exact hsame
    · exact absurd hok hne
  · obtain ⟨_, heffect⟩ := method_eq_changed.mp (Prod.ext hok rfl)
    have hon := heffect.onwards (validate_eq_ok.mp hval).1
    obtain ⟨ds, hds, _⟩ := hon.decisions
    refine ⟨heffect.follows.revision, ⟨ds, hds.symm⟩, fun i before hbefore => ?_⟩
    obtain ⟨after, hafter, _, hatt, hdone⟩ := hon.steps i before hbefore
    exact ⟨after, hafter, hatt, hdone⟩
  · obtain ⟨_, d, hd, rfl⟩ := resume_accepted hok
    obtain ⟨hlater, hon⟩ := run_onwards (step_validate hval (.resume d.request now)) calls
    have hd' := hon.mem_decisions hd
    constructor
    · rw [resume_saved hlater hd' rfl, if_pos rfl]
    · intro other hrev hne
      rw [resume_saved hlater hd' hrev, if_neg (Ne.symm hne)]
      exact ⟨_, rfl⟩

def sampleInput : WorkflowInput :=
  { title := "Saved work"
    requestKey := "request-1"
    steps :=
      [{ id := "step-0", title := "Step 0", kind := .approval, prompt := "Instructions 0" },
       { id := "step-1", title := "Step 1", kind := .task, prompt := "Instructions 1" }] }

/-- The approval is sent again after the run went on and was cancelled, and once more with another flag. -/
theorem sample_approval_replays :
    ((WorkflowRun.resume ⟨1, .approve, none, false⟩ 11).call (started "workflow-1" "agent-1" sampleInput 10)).1 = .ok true ∧
      ((WorkflowRun.resume ⟨1, .approve, none, false⟩ 30).call
        (run step (step (started "workflow-1" "agent-1" sampleInput 10) (.resume ⟨1, .approve, none, false⟩ 11))
          [.attachJob "job-1" 12, .cancel 3 13])).1 = .ok false ∧
      ∃ e, ((WorkflowRun.resume ⟨1, .approve, none, true⟩ 30).call
        (run step (step (started "workflow-1" "agent-1" sampleInput 10) (.resume ⟨1, .approve, none, false⟩ 11))
          [.attachJob "job-1" 12, .cancel 3 13])).1 = .error e := by
  have hlive : Live (started "workflow-1" "agent-1" sampleInput 10) :=
    ⟨"workflow-1", "agent-1", sampleInput, 10, none, started "workflow-1" "agent-1" sampleInput 10, [], by rfl,
      by decide +kernel, rfl⟩
  have hok : ((WorkflowRun.resume ⟨1, .approve, none, false⟩ 11).call
      (started "workflow-1" "agent-1" sampleInput 10)).1 = .ok true := by decide +kernel
  have hsent := (history_kept hlive).2.2.1 _ _ hok [.attachJob "job-1" 12, .cancel 3 13] 30
  exact ⟨hok, hsent.1, hsent.2 _ rfl (by decide)⟩

end AnimaCore.Workflows
