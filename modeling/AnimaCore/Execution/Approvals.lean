import AnimaCore.Execution.Index

/-!
# AnimaCore.Execution.Approvals — the approval index follows the runs

An approval entry is written when a run starts to wait, decided when the wait is resumed, and removed when the run
leaves the wait in any other way.

* `ApprovalsExact`: an entry is pending on its run, or decided by a recorded command of its run inside its window, if
  every request names an invocation and a window (`requestsInWindow`).
-/

namespace AnimaCore

open Lib

variable {digests : Digests} {s s' : State} {ownerId runId : Uuid} {op : Op} {commit : ExecutionCommit} {nowMs : ℕ}
  {patch : CommitPatch}

/-! ## Commands and pending approvals -/

theorem Run.applyResumeCommand_approval {r : Run} {command : RuntimeCommand} {claim : Option ApprovalResumeClaim}
    {outcome : ApprovalResumeOutcome} (h : r.applyResumeCommand command claim none = .ok outcome) :
    ∃ c, claim = some c ∧ r.pendingApproval = some c.binding.decision.request ∧
      outcome.run.pendingApproval = none := by
  simp only [applyResumeCommand, bind_eq_ok] at h
  obtain ⟨_, _, consumption, hpre, run, hrun, h⟩ := h
  cases h
  unfold resumePrerequisite at hpre
  split at hpre
  · split at hpre
    · next expected binding c hpending _ =>
      simp only [bind_eq_ok, ensure_eq_ok] at hpre
      obtain ⟨_, ⟨_, _, _, hrequest⟩, _⟩ := hpre
      exact ⟨c, rfl, by rw [hpending, hrequest], pendingApproval_of_parts hrun⟩
    · cases hpre
  · split at hpre
    · next hclaim => cases hclaim
    · cases hpre
  · cases hpre

theorem validKindTransition_cases {current target : Run} {command : RuntimeCommand}
    {approval : Option ApprovalGrantMutation} {dispatchGrant : Option DispatchGrantMutation}
    {attempts : List InvocationAttemptRecord}
    (h : validKindTransition current target command approval dispatchGrant attempts = true) :
    (command.kind = .requestApproval ∧ ∃ request, command.approvalRequest = some request ∧
        current.pendingApproval = none ∧ target.pendingApproval = some request) ∨
      (command.kind = .resumeApproval ∧ ∃ mutation, approval = some mutation ∧
        current.pendingApproval = some mutation.claim.binding.decision.request ∧ target.pendingApproval = none) ∨
      (command.kind ≠ .requestApproval ∧ command.kind ≠ .resumeApproval ∧ target.pendingApproval = none) := by
  unfold validKindTransition at h
  split at h
  · next hkind =>
    simp only [Bool.and_eq_true, beq_iff_eq] at h
    exact .inr (.inr ⟨by simp [hkind], by simp [hkind], Run.pendingApproval_of_state (by simp [h.2])⟩)
  · next hkind =>
    simp only [Bool.and_eq_true, beq_iff_eq, decide_eq_true_eq] at h
    exact .inr (.inr ⟨by simp [hkind], by simp [hkind],
      by rw [← h.2]; exact Run.pendingApproval_of_state (by simp [h.1.2])⟩)
  · next hkind =>
    simp only [Bool.and_eq_true, beq_iff_eq, decide_eq_true_eq] at h
    exact .inr (.inr ⟨by simp [hkind], by simp [hkind],
      by rw [← h.2]; exact Run.pendingApproval_of_state (by simp [h.1.2])⟩)
  · next hkind =>
    simp only [Bool.and_eq_true, Option.any_eq_true, decide_eq_true_eq] at h
    obtain ⟨_, request, hrequest, hwait⟩ := h
    obtain ⟨hrunning, htarget⟩ := Run.waitForApproval_eq_ok hwait
    exact .inl ⟨hkind, request, hrequest, Run.pendingApproval_of_state (by simp [hrunning]), htarget⟩
  · next hkind =>
    simp only [Bool.and_eq_true, Option.any_eq_true, decide_eq_true_eq] at h
    obtain ⟨_, recovery, _, _, hrequire⟩ := h
    exact .inr (.inr ⟨by simp [hkind], by simp [hkind], Run.pendingApproval_of_requireRecovery hrequire⟩)
  · next hkind =>
    simp only [Bool.and_eq_true, Option.any_eq_true, decide_eq_true_eq] at h
    obtain ⟨_, reason, _, hpause⟩ := h
    exact .inr (.inr ⟨by simp [hkind], by simp [hkind], Run.pendingApproval_of_transition hpause⟩)
  · next hkind =>
    simp only [Bool.and_eq_true, decide_eq_true_eq] at h
    exact .inr (.inr ⟨by simp [hkind], by simp [hkind], Run.pendingApproval_of_resume h.2⟩)
  · cases h
  · next hkind =>
    split at h
    · next outcome hresume =>
      obtain ⟨claim, hclaim, hcurrent, htarget⟩ := Run.applyResumeCommand_approval hresume
      obtain ⟨mutation, rfl, rfl⟩ := Option.map_eq_some_iff.mp hclaim
      rw [decide_eq_true_eq] at h
      exact .inr (.inl ⟨hkind, mutation, rfl, hcurrent, by rw [← h]; exact htarget⟩)
    · cases h
  · next hkind =>
    simp only [Bool.and_eq_true, Option.isNone_iff_eq_none] at h
    exact .inr (.inr ⟨by simp [hkind], by simp [hkind], h.1.2⟩)
  · next hkind =>
    simp only [Bool.and_eq_true, decide_eq_true_eq] at h
    exact .inr (.inr ⟨by simp [hkind], by simp [hkind], Run.pendingApproval_of_transition h.2⟩)
  · next hkind =>
    rw [Bool.and_eq_true] at h
    refine .inr (.inr ⟨by simp [hkind], by simp [hkind], ?_⟩)
    obtain ⟨_, h⟩ := h
    split at h
    · exact Run.pendingApproval_of_transition (of_decide_eq_true h)
    · exact Run.pendingApproval_of_resolveRecoveryTerminal (of_decide_eq_true h)
    · cases h
  · next hkind =>
    simp only [Bool.and_eq_true, decide_eq_true_eq] at h
    exact .inr (.inr ⟨by simp [hkind], by simp [hkind], Run.pendingApproval_of_cancelAtBoundary h.2⟩)

/-! ## Entries after a commit -/

theorem Built.kind_cases (b : Built digests s ownerId commit nowMs patch) :
    validKindTransition b.aggregate.stored.run commit.targetRun commit.command commit.approval commit.dispatchGrant
      commit.attempts = true := by
  have h := b.header_eq.2.2.2
  rw [validCommandTransition, Bool.and_eq_true] at h
  exact h.2

def ApprovalIndexRecord.ofRequest (runId : Uuid) (request : ApprovalRequest) : ApprovalIndexRecord :=
  { runId, requestedAtMs := request.requestedAtMs, expiresAtMs := request.expiresAtMs, decisionCommandId := none
    decisionKind := none, decidedAtMs := none }

def ApprovalIndexRecord.ofDecision (runId commandId : Uuid) (decision : ApprovalDecision) : ApprovalIndexRecord :=
  { runId, requestedAtMs := decision.request.requestedAtMs, expiresAtMs := decision.request.expiresAtMs
    decisionCommandId := some commandId, decisionKind := some decision.kind, decidedAtMs := some decision.decidedAtMs }

/-- **An entry after a commit** is the request it makes, the decision it applies, or an older entry that is not the
one its run waited for. -/
theorem Built.approval_cases (b : Built digests s ownerId commit nowMs patch) {outcome : ExecutionCommitOutcome}
    {k : Uuid × Uuid} {record : ApprovalIndexRecord}
    (h : (applyCommitPatch s ownerId commit.lease.runId patch outcome).approvals[k]? = some record) :
    (∃ request, commit.command.approvalRequest = some request ∧ commit.targetRun.pendingApproval = some request ∧
        k = (ownerId, request.logicalInvocationId) ∧ record = .ofRequest commit.lease.runId request) ∨
      (∃ mutation existing, commit.approval = some mutation ∧
        k = (ownerId, mutation.claim.binding.decision.request.logicalInvocationId) ∧
        s.approvals[k]? = some existing ∧
        existing.requestedAtMs = mutation.claim.binding.decision.request.requestedAtMs ∧
        existing.expiresAtMs = mutation.claim.binding.decision.request.expiresAtMs ∧
        record = .ofDecision commit.lease.runId commit.command.id mutation.claim.binding.decision) ∨
      (s.approvals[k]? = some record ∧ ∀ request, b.aggregate.stored.run.pendingApproval = some request →
        (ownerId, request.logicalInvocationId) ≠ k) := by
  have hupdate := b.indexUpdate_eq
  have hremoval := b.indexRemoval_eq
  obtain ⟨hkind, request, hrequest, hcurrent, htarget⟩ | ⟨hkind, mutation, hmutation, hcurrent, htarget⟩ |
    ⟨hnew, hresume, htarget⟩ := validKindTransition_cases b.kind_cases
  · simp only [approvalIndexUpdate, hkind, bind_eq_ok, ensure_eq_ok, okOr_eq_ok, hrequest] at hupdate
    obtain ⟨_, ⟨⟩, _, _, hupdate⟩ := hupdate
    rw [approvalIndexRemoval, if_neg (by simp [htarget])] at hremoval
    simp only [applyCommitPatch, ← Except.ok.inj hupdate, ← Except.ok.inj hremoval, Table.getElem?_insert_eq] at h
    split_ifs at h with hkey
    · cases h
      exact .inl ⟨request, hrequest, htarget, hkey.symm, rfl⟩
    · exact .inr (.inr ⟨h, by rw [hcurrent]; rintro _ ⟨⟩⟩)
  · simp only [approvalIndexUpdate, hkind, bind_eq_ok, ensure_eq_ok, okOr_eq_ok, hmutation] at hupdate
    obtain ⟨_, ⟨⟩, existing, hexisting, _, ⟨_, hreq, hexp, _⟩, hupdate⟩ := hupdate
    rw [approvalIndexRemoval, if_neg (by simp [hkind])] at hremoval
    simp only [applyCommitPatch, ← Except.ok.inj hupdate, ← Except.ok.inj hremoval, Table.getElem?_insert_eq] at h
    split_ifs at h with hkey
    · cases h
      subst hkey
      refine .inr (.inl ⟨mutation, existing, hmutation, rfl, hexisting, hreq, hexp, ?_⟩)
      rw [ApprovalIndexRecord.ofDecision, hreq, hexp]
    · refine .inr (.inr ⟨h, ?_⟩)
      rw [hcurrent]
      rintro _ ⟨⟩
      exact hkey
  · have hnone : patch.approvalIndexUpdate = none := by
      unfold approvalIndexUpdate at hupdate
      split at hupdate
      · exact absurd ‹_› hnew
      · exact absurd ‹_› hresume
      · exact (Except.ok.inj hupdate).symm
    rw [approvalIndexRemoval, if_pos ⟨hresume, htarget⟩] at hremoval
    refine .inr (.inr ?_)
    cases hpending : b.aggregate.stored.run.pendingApproval with
    | none =>
      rw [hpending] at hremoval
      simp only [applyCommitPatch, hnone, ← Except.ok.inj hremoval] at h
      exact ⟨h, by rintro _ ⟨⟩⟩
    | some pending =>
      simp only [hpending, bind_eq_ok, ensure_eq_ok, okOr_eq_ok] at hremoval
      obtain ⟨_, _, _, _, hremoval⟩ := hremoval
      simp only [applyCommitPatch, hnone, ← Except.ok.inj hremoval, Table.getElem?_erase_eq] at h
      split_ifs at h with hkey
      refine ⟨h, ?_⟩
      rintro _ ⟨⟩
      exact hkey

/-! ## The invariant -/

/-- The calls whose requests name an invocation and a window. -/
def requestsInWindow (op : Op) : Prop :=
  match op with
  | .commit _ commit _ => ∀ request, commit.command.approvalRequest = some request →
      isNil request.logicalInvocationId = false ∧ 0 ≤ request.requestedAtMs ∧
        request.requestedAtMs < request.expiresAtMs
  | _ => True

def PendingOn (s : State) (k : Uuid × Uuid) (record : ApprovalIndexRecord) : Prop :=
  ∃ a request, s.runs[(k.1, record.runId)]? = some a ∧ a.stored.run.pendingApproval = some request ∧
    request.logicalInvocationId = k.2 ∧ record = .ofRequest record.runId request

/-- The entry is decided by a recorded command of its run. -/
def DecidedBy (s : State) (k : Uuid × Uuid) (record : ApprovalIndexRecord) : Prop :=
  ∃ commandId decision receipt index outcome, isNil commandId = false ∧ decision.validate = .ok () ∧
    decision.kind = .approve ∧ record = .ofDecision record.runId commandId decision ∧
    Recorded s (k.1, commandId) receipt index outcome ∧ outcome.storedRun.run.id = record.runId ∧
    (k.1, record.runId) ∈ s.runs

/-- One approval entry is well formed, and pending or decided. -/
structure ApprovalEntry (s : State) (k : Uuid × Uuid) (record : ApprovalIndexRecord) : Prop where
  ids : isNil k.1 = false ∧ isNil k.2 = false
  window : 0 ≤ record.requestedAtMs ∧ record.requestedAtMs < record.expiresAtMs
  status : PendingOn s k record ∨ DecidedBy s k record

def ApprovalsExact (s : State) : Prop :=
  ∀ (k : Uuid × Uuid) record, s.approvals[k]? = some record → ApprovalEntry s k record

theorem DecidedBy.of_accepted {k : Uuid × Uuid} {record : ApprovalIndexRecord} (h : DecidedBy s k record)
    (hacc : Accepted digests s op s') : DecidedBy s' k record := by
  obtain ⟨commandId, decision, receipt, index, outcome, hid, hv, ha, hr, hrec, hrun, hm⟩ := h
  refine ⟨commandId, decision, receipt, index, outcome, hid, hv, ha, hr, hrec.of_accepted hacc, hrun, ?_⟩
  obtain ⟨a, hstored⟩ := Option.isSome_iff_exists.mp (Table.mem_iff_getElem?_isSome.mp hm)
  obtain hsame | ⟨lease, hnew⟩ | ⟨_, _, _, _, _, _, _, _, _, hnew⟩ := hacc.run_cases hstored
  · exact Table.mem_of_getElem? hsame
  · exact Table.mem_of_getElem? hnew
  · exact Table.mem_of_getElem? hnew

theorem ApprovalEntry.of_accepted {k : Uuid × Uuid} {record : ApprovalIndexRecord} (h : ApprovalEntry s k record)
    (hacc : Accepted digests s op s')
    (hmoved : ∀ ownerId commit nowMs patch, ∀ b : Built digests s ownerId commit nowMs patch,
      op = .commit ownerId commit nowMs → ∀ request, b.aggregate.stored.run.pendingApproval = some request →
        (ownerId, request.logicalInvocationId) ≠ k) : ApprovalEntry s' k record := by
  refine ⟨h.ids, h.window, ?_⟩
  obtain ⟨a, request, ha, hp, hid, hr⟩ | hdecided := h.status
  · obtain hsame | ⟨lease, hnew⟩ | ⟨ownerId, commit, nowMs, patch, b, rfl, _, hk, hop, _⟩ := hacc.run_cases ha
    · exact .inl ⟨a, request, hsame, hp, hid, hr⟩
    · exact .inl ⟨_, request, hnew, hp, hid, hr⟩
    · exact absurd (Prod.ext (Prod.mk.inj hk).1.symm hid) (hmoved ownerId commit nowMs patch b hop request hp)
  · exact .inr (hdecided.of_accepted hacc)

theorem approvalsExact_of_accepted (h : ApprovalsExact s) (hwindow : requestsInWindow op)
    (hacc : Accepted digests s op s') : ApprovalsExact s' := by
  intro k record hk
  have hkept := hacc
  cases hacc with
  | applyPolicy _ _ => exact (h k record hk).of_accepted hkept (by rintro _ _ _ _ _ ⟨⟩)
  | applyGrant _ _ => exact (h k record hk).of_accepted hkept (by rintro _ _ _ _ _ ⟨⟩)
  | createRun _ _ => exact (h k record hk).of_accepted hkept (by rintro _ _ _ _ _ ⟨⟩)
  | retryRun _ _ _ => exact (h k record hk).of_accepted hkept (by rintro _ _ _ _ _ ⟨⟩)
  | acquireLease _ => exact (h k record hk).of_accepted hkept (by rintro _ _ _ _ _ ⟨⟩)
  | renewLease _ => exact (h k record hk).of_accepted hkept (by rintro _ _ _ _ _ ⟨⟩)
  | @commit ownerId commit nowMs patch hcom =>
    obtain ⟨b⟩ := buildCommitPatch_eq_ok hcom.built
    have hrun := hcom.run_eq.2
    have howner : isNil ownerId = false := by
      rw [← b.stored_owner]
      exact patch.stored.owner_ne_nil
    have hpatched : (applyCommitPatch s ownerId commit.lease.runId patch patch.outcome).runs[(ownerId,
        commit.lease.runId)]? = some (b.aggregate.patched patch) := by rw [b.runs_after, if_pos rfl]
    obtain ⟨request, hrequest, hpending, rfl, rfl⟩ | ⟨mutation, existing, _, hkey, hexisting, hreq, hexp, rfl⟩ |
      ⟨hk, hother⟩ := b.approval_cases hk
    · obtain ⟨hid, hbounds⟩ := hwindow request hrequest
      refine ⟨⟨howner, hid⟩, hbounds, .inl ⟨_, request, hpatched, ?_, rfl, rfl⟩⟩
      rw [RunAggregate.patched_stored, b.stored_run]
      exact hpending
    · have hentry := h k existing hexisting
      refine ⟨hentry.ids, ?_, .inr ?_⟩
      · obtain ⟨h0, hlt⟩ := hentry.window
        rw [hreq] at h0 hlt
        rw [hexp] at hlt
        exact ⟨h0, hlt⟩
      · subst hkey
        refine ⟨commit.command.id, mutation.claim.binding.decision, _, _, _, commit.command.valid_facts.1,
          mutation.claim.decision_valid, mutation.claim.approved, rfl, b.recorded, ?_, Table.mem_of_getElem? hpatched⟩
        have hstored : patch.outcome.storedRun.run = commit.targetRun := b.stored_run
        rw [hstored]
        exact hrun
    · refine (h k record hk).of_accepted hkept ?_
      rintro _ _ _ _ b' ⟨⟩ request hp
      have hsame : b'.aggregate = b.aggregate := Option.some.inj (b'.found.symm.trans b.found)
      exact hother request (hsame ▸ hp)

theorem approvalsExact_of_reaches (h : Reaches (step digests) (fun _ => requestsInWindow) State.empty s) :
    ApprovalsExact s := by
  refine invariant_of_accepted h ?_ fun _ _ _ _ hp hal hacc => approvalsExact_of_accepted hp hal hacc
  intro k record hk
  simp [State.empty] at hk

end AnimaCore
