import AnimaCore.Execution.MemoryStore
import AnimaCore.Lib.Machine

/-!
# AnimaCore.Execution.Transitions — what one call of the store can do

* `Built`: everything that a commit patch which was built has passed, block by block; `buildCommitPatch_eq_ok`
  takes a successful build apart into it, and no later proof unfolds the builder.
* `Accepted digests s op s'`: the call `op` was carried out on `s` and left `s'`, one constructor for each operation
  with its checks.  `step_cases`: a call leaves the state as it was, or it was accepted.
-/

namespace AnimaCore

open Lib

variable {digests : Digests} {s s' : State} {ownerId runId : Uuid} {commit : ExecutionCommit} {nowMs : ℕ}
  {patch : CommitPatch}

/-! ## Commits -/

/-- A successful run of `buildCommitPatch`, block by block. -/
structure Built (digests : Digests) (s : State) (ownerId : Uuid) (commit : ExecutionCommit) (nowMs : ℕ)
    (patch : CommitPatch) where
  aggregate : RunAggregate
  session : StoredSession
  lastSequence : ℕ
  grants : GrantPatch
  steps : StepPatches
  attempts : AttemptPatches
  results : ResultPatches
  found : s.runs[(ownerId, commit.lease.runId)]? = some aggregate
  header : checkCommitHeader aggregate commit nowMs = .ok ()
  recovery : checkRecoveryDispatch commit = .ok ()
  guard : checkPolicyGuard s ownerId commit nowMs = .ok ()
  events : checkEvents s ownerId commit.lease.runId aggregate commit = .ok (session, lastSequence)
  replacementHeader : checkReplacementHeader commit.lease.runId aggregate commit lastSequence = .ok ()
  grants_eq : patchGrants digests s ownerId aggregate commit nowMs = .ok grants
  steps_eq : patchSteps commit.lease.runId aggregate commit = .ok steps
  attempts_eq : patchAttempts digests commit.lease.runId aggregate commit = .ok attempts
  lineage : ∀ entry ∈ attempts.patches.toList, checkDispatchLineage aggregate attempts.patches entry = .ok ()
  results_eq : patchResults digests commit.lease.runId aggregate attempts.patches commit = .ok results
  transitions : ∀ key ∈ attempts.transitionKeys.toList,
    checkAttemptTransition aggregate commit attempts results.patches key = .ok ()
  replacementHistory : checkReplacementHistory digests aggregate commit steps attempts results = .ok ()
  decision : checkCheckpointDecision aggregate commit steps attempts results = .ok ()
  checkpointVersion_eq : nextCheckpointVersion aggregate commit = .ok patch.checkpointVersion
  stored_eq : patchStored s ownerId commit.lease.runId aggregate commit session = .ok (patch.stored, patch.sessionUpdate)
  indexUpdate_eq : approvalIndexUpdate s ownerId commit.lease.runId commit = .ok patch.approvalIndexUpdate
  indexRemoval_eq :
    approvalIndexRemoval s ownerId commit.lease.runId aggregate commit = .ok patch.approvalIndexRemoval
  lease_eq : patch.lease = nextLease aggregate commit
  checkpoint_eq : patch.checkpoint = nextCheckpoint aggregate commit
  patchEvents_eq : patch.events = commit.events
  patchSteps_eq : patch.steps = steps.patches.toList ∧ patch.nextStepSequence = steps.nextSequence
  patchAttempts_eq : patch.attempts = attempts.patches.toList ∧ patch.nextAttemptSequence = attempts.nextSequence ∧
    patch.attemptsFingerprint = attempts.fingerprint
  patchResults_eq : patch.results = results.patches.toList ∧ patch.completedFingerprint = results.fingerprint
  patchGrants_eq : patch.authoritativeGrantUpdate = grants.update ∧ patch.grantConsumptionKey = grants.consumptionKey ∧
    patch.grantConsumption = reportedConsumption commit
  release_eq : patch.releaseSerialClaim = patch.sessionUpdate.isSome
  receipt_eq : patch.receipt = CommandReceipt.accepted digests commit.command
  commandIndex_eq : patch.commandIndex =
    { sessionId := commit.command.sessionId, runId := commit.command.targetRunId, kind := commit.command.kind
      payloadDigest := commit.command.payloadDigest digests }

theorem buildCommitPatch_eq_ok (h : buildCommitPatch digests s ownerId commit nowMs = .ok patch) :
    Nonempty (Built digests s ownerId commit nowMs patch) := by
  simp only [buildCommitPatch, bind_eq_ok, okOr_eq_ok, forM_eq_ok, Prod.exists] at h
  obtain ⟨aggregate, found, _, header, _, recovery, _, guard, session, lastSequence, events, _, replacementHeader,
    grants, grants_eq, steps, steps_eq, attempts, attempts_eq, _, lineage, results, results_eq, _, transitions, _,
    replacementHistory, _, decision, checkpointVersion, checkpointVersion_eq, stored, sessionUpdate, stored_eq,
    indexUpdate, indexUpdate_eq, indexRemoval, indexRemoval_eq, h⟩ := h
  cases h
  exact ⟨{ aggregate, session, lastSequence, grants, steps, attempts, results, found, header, recovery, guard, events
           replacementHeader, grants_eq, steps_eq, attempts_eq, lineage, results_eq, transitions
           replacementHistory, decision, checkpointVersion_eq, stored_eq, indexUpdate_eq, indexRemoval_eq
           lease_eq := rfl, checkpoint_eq := rfl, patchEvents_eq := rfl, patchSteps_eq := ⟨rfl, rfl⟩
           patchAttempts_eq := ⟨rfl, rfl, rfl⟩, patchResults_eq := ⟨rfl, rfl⟩, patchGrants_eq := ⟨rfl, rfl, rfl⟩
           release_eq := rfl, receipt_eq := rfl, commandIndex_eq := rfl }⟩

/-- A commit that was carried out: it passed its bounds, its command was new, and its patch was built. -/
structure Committed (digests : Digests) (s : State) (ownerId : Uuid) (commit : ExecutionCommit) (nowMs : ℕ)
    (patch : CommitPatch) : Prop where
  checked : checkCommit digests commit = .ok ()
  unseen : s.receipts[(ownerId, commit.command.id)]? = none
  built : buildCommitPatch digests s ownerId commit nowMs = .ok patch

/-! ## Calls -/

/-- The session and claim tables that `create_run` leaves. -/
def createdState (s : State) (ownerId : Uuid) (request : CreateRun) (sessionVersion : ℕ) (stored : StoredRun) : State :=
  { s with
    sessions := s.sessions.insert (ownerId, request.session.id)
      { version := sessionVersion, ownerId := request.ownerId, definition := request.session.definition
        policy := request.concurrencyPolicy }
    serialClaims := if request.concurrencyPolicy = .serial
      then s.serialClaims.insert (ownerId, request.session.id) request.run.id else s.serialClaims
    runs := s.runs.insert (ownerId, request.run.id) (RunAggregate.fresh stored) }

/-- The call was carried out on `s` and left the last argument. -/
inductive Accepted (digests : Digests) (s : State) : Op → State → Prop
  | applyPolicy {ownerId : Uuid} {change : AuthoritativePolicyChange} {next : AuthoritativePolicyState}
      (applied : change.applyTo s.authoritativePolicies[(ownerId, change.key.1, change.key.2)]? = .ok next)
      (owned : next.ownerId = ownerId) :
      Accepted digests s (.applyPolicy ownerId change)
        { s with authoritativePolicies :=
            s.authoritativePolicies.insert (ownerId, change.key.1, change.key.2) next }
  | applyGrant {ownerId : Uuid} {change : AuthoritativeGrantChange} {next : AuthoritativeGrantState}
      (owned : change.newState.all (fun next => next.ownerId == ownerId) = true)
      (applied : change.applyTo s.authoritativeGrants[(ownerId, change.authorityKey.asStr)]? = .ok next) :
      Accepted digests s (.applyGrant ownerId change)
        { s with authoritativeGrants := s.authoritativeGrants.insert (ownerId, next.authorityKey.asStr) next }
  | createRun {ownerId : Uuid} {request : CreateRun} {sessionVersion : ℕ} {stored : StoredRun}
      (checked : checkCreateRun ownerId request s = .ok sessionVersion)
      (stored_eq : stored.toStoredRunWire =
        { ownerId, run := request.run, runVersion := 1, sessionVersion, initialInput := request.initialInput }) :
      Accepted digests s (.createRun ownerId request) (createdState s ownerId request sessionVersion stored)
  | retryRun {ownerId : Uuid} {request : RetryRun} {source : RunAggregate} {command : RuntimeCommand}
      {session : StoredSession} {stored : StoredRun}
      (sourced : retrySource ownerId request s = .ok (source, command))
      (unseen : s.commands[(ownerId, request.commandId)]? = none)
      (checked : checkRetryRun ownerId request source.stored s = .ok (session, stored)) :
      Accepted digests s (.retryRun ownerId request)
        (writeRetryRun digests ownerId request source command session stored s)
  | acquireLease {ownerId runId : Uuid} {expectedRunVersion durationMs nowMs : ℕ} {fence : Uuid}
      {lease : ExecutionLease}
      (granted : grantLease ownerId runId expectedRunVersion durationMs nowMs fence s = .ok lease) :
      Accepted digests s (.acquireLease ownerId runId expectedRunVersion durationMs nowMs fence)
        (s.setLease ownerId runId lease)
  | renewLease {ownerId : Uuid} {lease renewed : ExecutionLease} {durationMs nowMs : ℕ}
      (extended : extendLease ownerId lease durationMs nowMs s = .ok renewed) :
      Accepted digests s (.renewLease ownerId lease durationMs nowMs) (s.setLease ownerId lease.runId renewed)
  | commit {ownerId : Uuid} {commit : ExecutionCommit} {nowMs : ℕ} {patch : CommitPatch}
      (committed : Committed digests s ownerId commit nowMs patch) :
      Accepted digests s (.commit ownerId commit nowMs)
        (applyCommitPatch s ownerId commit.lease.runId patch patch.outcome)

/-! ### Creating and retrying runs -/

/-- What `create_run` has checked before its first write. -/
structure CreateChecked (s : State) (ownerId : Uuid) (request : CreateRun) (sessionVersion : ℕ) : Prop where
  owner_valid : isNil ownerId = false
  owner_eq : request.ownerId = ownerId
  queued : request.run.state = .queued
  session_eq : request.run.sessionId = request.session.id
  definition_eq : request.run.definitionId = request.session.definition.id ∧
    request.run.definitionVersion = request.session.definition.version
  unseen : (ownerId, request.run.id) ∉ s.runs
  version_ne_zero : sessionVersion ≠ 0
  existing : ∀ session, s.sessions[(ownerId, request.session.id)]? = some session →
    session.version < sessionVersion ∧ session.definition = request.session.definition ∧
      session.policy = request.concurrencyPolicy
  unclaimed : request.concurrencyPolicy = .serial → (ownerId, request.session.id) ∉ s.serialClaims

theorem nextSessionVersion_eq_ok {request : CreateRun} {current : Option StoredSession} {version : ℕ}
    (h : nextSessionVersion request current = .ok version) :
    version ≠ 0 ∧ ∀ session, current = some session → session.version < version ∧
      session.definition = request.session.definition ∧ session.policy = request.concurrencyPolicy := by
  cases current with
  | none =>
    simp only [nextSessionVersion] at h
    split_ifs at h with hz
    cases h
    simp
  | some session =>
    simp only [nextSessionVersion] at h
    split_ifs at h with hs
    simp only [okOr_eq_ok, checkedAdd_eq_some] at h
    obtain ⟨_, rfl⟩ := h
    refine ⟨by omega, ?_⟩
    rintro _ ⟨⟩
    exact ⟨by omega, hs.2.2⟩

theorem checkCreateRun_eq_ok {request : CreateRun} {sessionVersion : ℕ}
    (h : checkCreateRun ownerId request s = .ok sessionVersion) :
    CreateChecked s ownerId request sessionVersion := by
  simp only [checkCreateRun, bind_eq_ok, ensure_eq_ok, toStore_eq_ok] at h
  obtain ⟨_, ⟨ho, hr, hq, hs, hd⟩, _, _, _, _, _, hu, _, hv, _, hc, h⟩ := h
  cases h
  obtain ⟨hz, he⟩ := nextSessionVersion_eq_ok hv
  exact ⟨ho, hr, hq, hs, hd, hu, hz, he, fun hp hm => hc ⟨hp, hm⟩⟩

theorem CreateChecked.stored {request : CreateRun} {sessionVersion : ℕ}
    (h : CreateChecked s ownerId request sessionVersion) :
    ∃ stored, StoredRun.newWithInitialInput
      { ownerId, run := request.run, runVersion := 1, sessionVersion, initialInput := request.initialInput } =
        .ok stored := by
  obtain ⟨hio, his, hir, hit⟩ := request.input_bound
  have hvalid : StoredRunWire.validate
      { ownerId, run := request.run, runVersion := 1, sessionVersion, initialInput := request.initialInput } =
        .ok () := by
    simp only [StoredRunWire.validate, DurableRunInput.validate, bind_eq_ok, ensure_eq_ok]
    refine ⟨(), ⟨h.owner_valid, by omega, h.version_ne_zero⟩, (), ?_, ?_⟩
    · exact ⟨by rw [hio, h.owner_eq]; exact h.owner_valid, by rw [his]; exact request.session.id_ne_nil,
        by rw [hir]; exact request.run.id_ne_nil, hit⟩
    · exact ⟨by rw [hio, h.owner_eq], by rw [his, h.session_eq], hir⟩
  exact ⟨⟨_, hvalid⟩, StoredRun.newWithInitialInput_eq_ok.mpr rfl⟩

/-- What `retry_run` has checked before its first write. -/
structure RetryChecked (s : State) (ownerId : Uuid) (request : RetryRun) (source : RunAggregate)
    (command : RuntimeCommand) (session : StoredSession) (stored : StoredRun) : Prop where
  owner_valid : isNil ownerId = false
  found : s.runs[(ownerId, request.sourceRunId)]? = some source
  terminal : source.stored.run.state = .failed ∨ source.stored.run.state = .cancelled
  command_eq : command.toRuntimeCommandWire =
    { id := request.commandId, sessionId := source.stored.run.sessionId
      payload := .retry request.sourceRunId request.newRunId }
  unseen : (ownerId, request.newRunId) ∉ s.runs
  existing : ∃ before, s.sessions[(ownerId, source.stored.run.sessionId)]? = some before ∧
    session = { before with version := before.version + 1 } ∧
    before.definition.id = source.stored.run.definitionId ∧
    before.definition.version = source.stored.run.definitionVersion
  unclaimed : session.policy = .serial → (ownerId, source.stored.run.sessionId) ∉ s.serialClaims
  stored_owner : stored.ownerId = ownerId
  stored_run : stored.run.toRunWire =
    { id := request.newRunId, sessionId := source.stored.run.sessionId
      definitionId := source.stored.run.definitionId, definitionVersion := source.stored.run.definitionVersion
      state := .queued, pauseReason := none, pendingApproval := none, recoveryPause := none
      recoveryBinding := none }
  stored_versions : stored.runVersion = 1 ∧ stored.sessionVersion = session.version

theorem checkRetryRun_eq_ok {request : RetryRun} {source : RunAggregate} {command : RuntimeCommand}
    {session : StoredSession} {stored : StoredRun} (hs : retrySource ownerId request s = .ok (source, command))
    (h : checkRetryRun ownerId request source.stored s = .ok (session, stored)) :
    RetryChecked s ownerId request source command session stored := by
  simp only [retrySource, bind_eq_ok, ensure_eq_ok, okOr_eq_ok, toStore_eq_ok] at hs
  obtain ⟨_, ho, _, hf, _, ht, _, hc, hs⟩ := hs
  cases hs
  simp only [checkRetryRun, bind_eq_ok, ensure_eq_ok, okOr_eq_ok, toStore_eq_ok, checkedAdd_eq_some] at h
  obtain ⟨_, hu, before, hb, _, ⟨hdi, hdv, hcl⟩, _, ⟨_, rfl⟩, run, hr, input, _, stored', hst, h⟩ := h
  cases h
  have hw := StoredRun.newWithInitialInput_eq_ok.mp hst
  have hrun : stored.run = run := congrArg StoredRunWire.run hw
  exact { owner_valid := ho, found := hf, terminal := ht, command_eq := RuntimeCommand.new_eq_ok hc, unseen := hu
          existing := ⟨before, hb, rfl, hdi, hdv⟩, unclaimed := fun hp hm => hcl ⟨hp, hm⟩
          stored_owner := congrArg StoredRunWire.ownerId hw
          stored_run := by rw [hrun]; exact Run.fromParts_eq_ok hr
          stored_versions := ⟨congrArg StoredRunWire.runVersion hw, congrArg StoredRunWire.sessionVersion hw⟩ }

/-! ### The calls -/

variable (digests s ownerId) in
theorem createRun_cases (request : CreateRun) :
    (createRun ownerId request s).2 = s ∨
      ∃ stored, (createRun ownerId request s).1 = .ok stored ∧
        Accepted digests s (.createRun ownerId request) (createRun ownerId request s).2 := by
  unfold createRun
  cases hc : checkCreateRun ownerId request s with
  | error e => exact .inl rfl
  | ok sessionVersion =>
    -- the stored run is built after the first two writes; it cannot fail
    obtain ⟨stored, hst⟩ := (checkCreateRun_eq_ok hc).stored
    refine .inr ⟨stored, by simp only [hst], ?_⟩
    have hacc := @Accepted.createRun digests _ _ _ _ _ hc (StoredRun.newWithInitialInput_eq_ok.mp hst)
    simp only [hst]
    by_cases hp : request.concurrencyPolicy = .serial
    · simpa [createdState, hp] using hacc
    · simpa [createdState, hp] using hacc

variable (digests s ownerId) in
theorem retryRun_cases (request : RetryRun) :
    (retryRun digests ownerId request s).2 = s ∨
      ∃ outcome, (retryRun digests ownerId request s).1 = .ok outcome ∧
        Accepted digests s (.retryRun ownerId request) (retryRun digests ownerId request s).2 := by
  unfold retryRun
  cases hs : retrySource ownerId request s with
  | error e => exact .inl rfl
  | ok source =>
    obtain ⟨source, command⟩ := source
    cases hx : s.commands[(ownerId, request.commandId)]? with
    | some existing => exact .inl rfl
    | none =>
      cases hc : checkRetryRun ownerId request source.stored s with
      | error e => exact .inl (by simp only [hc])
      | ok made =>
        obtain ⟨session, stored⟩ := made
        have hchecked := checkRetryRun_eq_ok hs hc
        -- the new run has the requested identity, so the outcome is well formed
        have hid : stored.run.id = request.newRunId := congrArg RunWire.id hchecked.stored_run
        have hout : RetryRunOutcome.new request.sourceRunId stored (CommandReceipt.accepted digests command) =
            .ok { sourceRunId := request.sourceRunId, run := stored
                  receipt := CommandReceipt.accepted digests command } := by
          simp only [RetryRunOutcome.new, bind_eq_ok, ensure_eq_ok, hid]
          exact ⟨(), ⟨request.valid.2.1, request.valid.2.2.2⟩, rfl⟩
        refine .inr ⟨_, by simp only [hc]; exact hout, ?_⟩
        simp only [hc]
        exact .retryRun hs hx hc

variable (digests s ownerId commit nowMs) in
theorem commitExecution_cases :
    (commitExecution digests ownerId commit nowMs s).2 = s ∨
      ∃ outcome, (commitExecution digests ownerId commit nowMs s).1 = .ok outcome ∧
        Accepted digests s (.commit ownerId commit nowMs) (commitExecution digests ownerId commit nowMs s).2 := by
  unfold commitExecution
  cases hb : checkCommit digests commit with
  | error e => exact .inl rfl
  | ok u =>
    cases hr : s.receipts[(ownerId, commit.command.id)]? with
    | some receipt => exact .inl rfl
    | none =>
      cases hp : buildCommitPatch digests s ownerId commit nowMs with
      | error e => exact .inl rfl
      | ok patch =>
        refine .inr ⟨patch.outcome, rfl, ?_⟩
        exact .commit ⟨hb, hr, hp⟩

theorem exec_cases (digests : Digests) (op : Op) (s : State) :
    (exec digests op s).2 = s ∨
      ∃ r, (exec digests op s).1 = .ok r ∧ Accepted digests s op (exec digests op s).2 := by
  cases op with
  | applyPolicy ownerId change =>
    simp only [exec, reply, applyAuthoritativePolicy]
    split_ifs with hn
    · exact .inl rfl
    · cases ha : change.applyTo s.authoritativePolicies[(ownerId, change.key.1, change.key.2)]? with
      | error e => exact .inl rfl
      | ok next =>
        dsimp only
        split_ifs with ho
        · exact .inl rfl
        · exact .inr ⟨_, rfl, .applyPolicy ha (not_not.mp ho)⟩
  | applyGrant ownerId change =>
    simp only [exec, reply, applyAuthoritativeGrant]
    split_ifs with hn
    · exact .inl rfl
    · cases ha : change.applyTo s.authoritativeGrants[(ownerId, change.authorityKey.asStr)]? with
      | error e => exact .inl rfl
      | ok next =>
        refine .inr ⟨_, rfl, .applyGrant ?_ ha⟩
        rw [Bool.or_eq_true, not_or] at hn
        cases hnew : change.newState with
        | none => rfl
        | some next => simpa [hnew] using hn.2
  | createRun ownerId request =>
    obtain h | ⟨stored, hr, h⟩ := createRun_cases digests s ownerId request
    · exact .inl h
    · exact .inr ⟨.run stored, by simp [exec, reply, hr, Except.map], h⟩
  | retryRun ownerId request =>
    obtain h | ⟨outcome, hr, h⟩ := retryRun_cases digests s ownerId request
    · exact .inl h
    · exact .inr ⟨.retry outcome, by simp [exec, reply, hr, Except.map], h⟩
  | acquireLease ownerId runId expectedRunVersion durationMs nowMs fence =>
    simp only [exec, reply, acquireLease]
    cases hg : grantLease ownerId runId expectedRunVersion durationMs nowMs fence s with
    | error e => exact .inl rfl
    | ok lease => exact .inr ⟨_, rfl, .acquireLease hg⟩
  | renewLease ownerId lease durationMs nowMs =>
    simp only [exec, reply, renewLease]
    cases hg : extendLease ownerId lease durationMs nowMs s with
    | error e => exact .inl rfl
    | ok renewed => exact .inr ⟨_, rfl, .renewLease hg⟩
  | commit ownerId commit nowMs =>
    obtain h | ⟨outcome, hr, h⟩ :=
      commitExecution_cases digests s ownerId commit nowMs
    · exact .inl h
    · exact .inr ⟨.outcome outcome, by simp [exec, reply, hr, Except.map], h⟩

/-- **Error atomicity**: a call that returns an error leaves the whole state as it was. -/
theorem failed_call_unchanged (digests : Digests) (op : Op) (s : State) (e : ExecutionStoreErrorCode)
    (h : (exec digests op s).1 = .error e) : (exec digests op s).2 = s := by
  obtain hsame | ⟨r, hok, _⟩ := exec_cases digests op s
  · exact hsame
  · rw [hok] at h
    cases h

theorem acquireLease_without_run :
    (exec Sample.digests Sample.acquireLease State.empty).1 = .error .notFound ∧
      (exec Sample.digests Sample.acquireLease State.empty).2 = State.empty :=
  ⟨rfl, failed_call_unchanged _ _ _ _ rfl⟩

theorem step_cases (digests : Digests) (s : State) (op : Op) :
    step digests s op = s ∨ Accepted digests s op (step digests s op) := by
  obtain h | ⟨_, _, h⟩ := exec_cases digests op s
  · exact .inl h
  · exact .inr h

/-- A commit is freshly accepted: its command has no receipt yet, and the call succeeds. -/
def freshlyAccepted (digests : Digests) (s : State) (ownerId : Uuid) (commit : ExecutionCommit) (nowMs : ℕ) : Bool :=
  s.receipts[(ownerId, commit.command.id)]?.isNone && (commitExecution digests ownerId commit nowMs s).1.isOk

theorem freshlyAccepted_iff :
    freshlyAccepted digests s ownerId commit nowMs = true ↔
      ∃ patch, Committed digests s ownerId commit nowMs patch := by
  simp only [freshlyAccepted, Bool.and_eq_true, Option.isNone_iff_eq_none, commitExecution]
  constructor
  · rintro ⟨hr, hok⟩
    cases hb : checkCommit digests commit with
    | error e => simp [hb, Except.isOk, Except.toBool] at hok
    | ok u =>
      cases hp : buildCommitPatch digests s ownerId commit nowMs with
      | error e => simp [hb, hr, hp, Except.isOk, Except.toBool] at hok
      | ok patch => exact ⟨patch, hb, hr, hp⟩
  · rintro ⟨patch, hb, hr, hp⟩
    simp [hb, hr, hp, Except.isOk, Except.toBool]

theorem Committed.exec_eq (h : Committed digests s ownerId commit nowMs patch) :
    commitExecution digests ownerId commit nowMs s =
      (.ok patch.outcome, applyCommitPatch s ownerId commit.lease.runId patch patch.outcome) := by
  simp [commitExecution, h.checked, h.unseen, h.built]

theorem Committed.step_eq (h : Committed digests s ownerId commit nowMs patch) :
    step digests s (.commit ownerId commit nowMs) =
      applyCommitPatch s ownerId commit.lease.runId patch patch.outcome := by
  simp [step, exec, reply, h.exec_eq]

theorem Accepted.committed (h : Accepted digests s (.commit ownerId commit nowMs) s') :
    ∃ patch, Committed digests s ownerId commit nowMs patch ∧
      s' = applyCommitPatch s ownerId commit.lease.runId patch patch.outcome := by
  cases h with
  | commit hcom => exact ⟨_, hcom, rfl⟩

theorem step_commit_of_not_fresh (h : freshlyAccepted digests s ownerId commit nowMs = false) :
    step digests s (.commit ownerId commit nowMs) = s := by
  obtain hsame | hacc := step_cases digests s (.commit ownerId commit nowMs)
  · exact hsame
  · obtain ⟨patch, hcom, _⟩ := hacc.committed
    simp [freshlyAccepted_iff.mpr ⟨patch, hcom⟩] at h

theorem invariant_of_accepted {allowed : State → Op → Prop} {P : State → Prop}
    (h : Reaches (step digests) allowed State.empty s) (h0 : P State.empty)
    (hstep : ∀ s op s', Reaches (step digests) allowed State.empty s → P s → allowed s op →
      Accepted digests s op s' → P s') : P s := by
  refine h.invariant h0 ?_
  intro s op hr hp ha
  obtain hsame | hacc := step_cases digests s op
  · rwa [hsame]
  · exact hstep s op _ hr hp ha hacc

/-! ## What a commit keeps and changes -/

theorem patchStored_eq_ok {aggregate : RunAggregate} {session : StoredSession} {stored : StoredRun}
    {update : Option StoredSession}
    (h : patchStored s ownerId runId aggregate commit session = .ok (stored, update)) :
    stored.toStoredRunWire =
        { ownerId, run := commit.targetRun, runVersion := aggregate.stored.runVersion + 1
          sessionVersion := stored.sessionVersion, initialInput := aggregate.stored.initialInput } ∧
      (((commit.targetRun.state.isTerminal = true ∧
            s.serialClaims[(ownerId, commit.targetRun.sessionId)]? = some runId) ∧
          update = some { session with version := session.version + 1 } ∧
          stored.sessionVersion = session.version + 1) ∨
        (¬(commit.targetRun.state.isTerminal = true ∧
            s.serialClaims[(ownerId, commit.targetRun.sessionId)]? = some runId) ∧
          update = none ∧ stored.sessionVersion = aggregate.stored.sessionVersion)) := by
  simp only [patchStored, bind_eq_ok, okOr_eq_ok, checkedAdd_eq_some] at h
  obtain ⟨_, ⟨_, rfl⟩, kept, hkept, h⟩ := h
  split_ifs at h with hc
  · simp only [bind_eq_ok, okOr_eq_ok, checkedAdd_eq_some] at h
    obtain ⟨_, ⟨_, rfl⟩, released, hreleased, h⟩ := h
    have hw := StoredRun.newWithInitialInput_eq_ok.mp hreleased
    cases h
    exact ⟨by rw [hw], .inl ⟨hc, rfl, by rw [hw]⟩⟩
  · have hw := StoredRun.newWithInitialInput_eq_ok.mp hkept
    cases h
    exact ⟨by rw [hw], .inr ⟨hc, rfl, by rw [hw]⟩⟩

namespace Built

theorem header_eq (b : Built digests s ownerId commit nowMs patch) :
    b.aggregate.stored.runVersion = commit.expectedRunVersion ∧
      b.aggregate.checkpointVersion = commit.expectedCheckpointVersion ∧
      (b.aggregate.lease = some commit.lease ∧ nowMs < commit.lease.expiresAtMs) ∧
      validCommandTransition b.aggregate.stored.run commit.targetRun commit.command commit.approval
        commit.dispatchGrant commit.attempts = true := by
  have h := b.header
  simp only [checkCommitHeader, bind_eq_ok, ensure_eq_ok] at h
  obtain ⟨_, hv, _, hc, _, hl, ht⟩ := h
  exact ⟨hv, hc, hl, ht⟩

theorem same_run (b : Built digests s ownerId commit nowMs patch) :
    b.aggregate.stored.run.id = commit.targetRun.id ∧
      b.aggregate.stored.run.sessionId = commit.targetRun.sessionId ∧
      b.aggregate.stored.run.definitionId = commit.targetRun.definitionId ∧
      b.aggregate.stored.run.definitionVersion = commit.targetRun.definitionVersion ∧
      commit.command.sessionId = b.aggregate.stored.run.sessionId ∧
      commit.command.targetRunId = b.aggregate.stored.run.id ∧
      b.aggregate.stored.run.state.isTerminal = false := by
  have h := b.header_eq.2.2.2
  simp only [validCommandTransition, Bool.and_eq_true, beq_iff_eq, Bool.not_eq_true'] at h
  obtain ⟨⟨⟨⟨⟨⟨⟨⟨hi, hs⟩, hd⟩, hv⟩, hcs⟩, hct⟩, ht⟩, _⟩, _⟩ := h
  exact ⟨hi, hs, hd, hv, hcs, hct, ht⟩

theorem session_eq (b : Built digests s ownerId commit nowMs patch) :
    s.sessions[(ownerId, b.aggregate.stored.run.sessionId)]? = some b.session := by
  have h := b.events
  simp only [checkEvents, bind_eq_ok, okOr_eq_ok] at h
  obtain ⟨_, _, _, _, _, _, session, hs, _, _, h⟩ := h
  cases h
  exact hs

theorem stored_wire (b : Built digests s ownerId commit nowMs patch) :
    patch.stored.toStoredRunWire =
      { ownerId, run := commit.targetRun, runVersion := b.aggregate.stored.runVersion + 1
        sessionVersion := patch.stored.sessionVersion, initialInput := b.aggregate.stored.initialInput } :=
  (patchStored_eq_ok b.stored_eq).1

theorem session_cases (b : Built digests s ownerId commit nowMs patch) :
    ((commit.targetRun.state.isTerminal = true ∧
        s.serialClaims[(ownerId, commit.targetRun.sessionId)]? = some commit.lease.runId) ∧
      patch.sessionUpdate = some { b.session with version := b.session.version + 1 } ∧
      patch.stored.sessionVersion = b.session.version + 1) ∨
    (¬(commit.targetRun.state.isTerminal = true ∧
        s.serialClaims[(ownerId, commit.targetRun.sessionId)]? = some commit.lease.runId) ∧
      patch.sessionUpdate = none ∧ patch.stored.sessionVersion = b.aggregate.stored.sessionVersion) :=
  (patchStored_eq_ok b.stored_eq).2

theorem stored_run (b : Built digests s ownerId commit nowMs patch) : patch.stored.run = commit.targetRun :=
  congrArg StoredRunWire.run b.stored_wire

theorem stored_owner (b : Built digests s ownerId commit nowMs patch) : patch.stored.ownerId = ownerId :=
  congrArg StoredRunWire.ownerId b.stored_wire

theorem stored_runVersion (b : Built digests s ownerId commit nowMs patch) :
    patch.stored.runVersion = b.aggregate.stored.runVersion + 1 :=
  congrArg StoredRunWire.runVersion b.stored_wire

end Built

@[simp] theorem RunAggregate.patched_stored (aggregate : RunAggregate) :
    (aggregate.patched patch).stored = patch.stored := rfl

theorem Committed.run_eq (h : Committed digests s ownerId commit nowMs patch) :
    commit.command.targetRunId = commit.lease.runId ∧ commit.targetRun.id = commit.lease.runId := by
  have hc := h.checked
  simp only [checkCommit, bind_eq_ok, ensure_eq_ok] at hc
  obtain ⟨_, _, hc⟩ := hc
  exact hc

theorem Built.runs_after (b : Built digests s ownerId commit nowMs patch) (k : Uuid × Uuid)
    (outcome : ExecutionCommitOutcome) :
    (applyCommitPatch s ownerId commit.lease.runId patch outcome).runs[k]? =
      if (ownerId, commit.lease.runId) = k then some (b.aggregate.patched patch) else s.runs[k]? := by
  simp only [applyCommitPatch, Table.getElem?_modify_eq, b.found, Option.map_some]

theorem runs_setLease (lease : ExecutionLease) (k : Uuid × Uuid) :
    (s.setLease ownerId runId lease).runs[k]? =
      if (ownerId, runId) = k then s.runs[k]?.map fun a => { a with lease := some lease } else s.runs[k]? := by
  simp only [State.setLease, Table.getElem?_modify_eq]
  split_ifs with h
  · rw [h]
  · rfl

theorem grantLease_eq_ok {expectedRunVersion durationMs : ℕ} {fence : Uuid} {lease : ExecutionLease}
    (h : grantLease ownerId runId expectedRunVersion durationMs nowMs fence s = .ok lease) :
    (∃ a, s.runs[(ownerId, runId)]? = some a ∧ a.stored.runVersion = expectedRunVersion ∧
        a.stored.run.state.isTerminal = false) ∧
      lease.validate = .ok () ∧ lease.runId = runId ∧ lease.fence = fence := by
  simp only [grantLease, bind_eq_ok, ensure_eq_ok, okOr_eq_ok, toStore_eq_ok] at h
  obtain ⟨_, _, a, ha, _, hv, _, ht, _, _, _, _, h⟩ := h
  obtain ⟨hval, rfl⟩ := ExecutionLease.new_eq_ok h
  exact ⟨⟨a, ha, hv, ht⟩, hval, rfl, rfl⟩

theorem extendLease_eq_ok {durationMs : ℕ} {lease renewed : ExecutionLease}
    (h : extendLease ownerId lease durationMs nowMs s = .ok renewed) :
    (∃ a, s.runs[(ownerId, lease.runId)]? = some a ∧ a.lease = some lease) ∧
      renewed.validate = .ok () ∧ renewed.runId = lease.runId ∧ renewed.fence = lease.fence := by
  simp only [extendLease, bind_eq_ok, ensure_eq_ok, okOr_eq_ok, toStore_eq_ok] at h
  obtain ⟨_, _, a, ha, _, hl, _, _, _, _, h⟩ := h
  obtain ⟨hval, rfl⟩ := ExecutionLease.new_eq_ok h
  exact ⟨⟨a, ha, hl⟩, hval, rfl, rfl⟩

/-! ## Stored runs -/

def State.storedRun (s : State) (k : Uuid × Uuid) : Option StoredRun := s.runs[k]?.map (·.stored)

theorem storedRun_of_runs {k : Uuid × Uuid} {a : RunAggregate} (h : s.runs[k]? = some a) :
    s.storedRun k = some a.stored := by simp [State.storedRun, h]

theorem storedRun_eq_none {k : Uuid × Uuid} (h : k ∉ s.runs) : s.storedRun k = none := by
  simp [State.storedRun, Table.not_mem_iff_getElem?_eq_none.mp h]

@[simp] theorem storedRun_empty (k : Uuid × Uuid) : State.empty.storedRun k = none := by
  simp [State.storedRun, State.empty]

@[simp] theorem storedRun_setLease (lease : ExecutionLease) (k : Uuid × Uuid) :
    (s.setLease ownerId runId lease).storedRun k = s.storedRun k := by
  simp only [State.storedRun, runs_setLease]
  split_ifs with h
  · rw [Option.map_map]
    rfl
  · rfl

@[simp] theorem storedRun_createdState (request : CreateRun) (version : ℕ) (stored : StoredRun) (k : Uuid × Uuid) :
    (createdState s ownerId request version stored).storedRun k =
      if (ownerId, request.run.id) = k then some stored else s.storedRun k := by
  simp only [State.storedRun, createdState, Table.getElem?_insert_eq]
  split_ifs <;> rfl

@[simp] theorem storedRun_writeRetryRun (request : RetryRun) (source : RunAggregate) (command : RuntimeCommand)
    (session : StoredSession) (stored : StoredRun) (k : Uuid × Uuid) :
    (writeRetryRun digests ownerId request source command session stored s).storedRun k =
      if (ownerId, request.newRunId) = k then some stored else s.storedRun k := by
  simp only [State.storedRun, writeRetryRun, Table.getElem?_insert_eq]
  split_ifs <;> rfl

theorem Built.storedRun_after (b : Built digests s ownerId commit nowMs patch) (k : Uuid × Uuid)
    (outcome : ExecutionCommitOutcome) :
    (applyCommitPatch s ownerId commit.lease.runId patch outcome).storedRun k =
      if (ownerId, commit.lease.runId) = k then some patch.stored else s.storedRun k := by
  simp only [State.storedRun, b.runs_after]
  split_ifs <;> rfl

variable (digests) in
theorem storedRun_step_cases {stored : StoredRun} (h : s.storedRun (ownerId, runId) = some stored) (op : Op) :
    (step digests s op).storedRun (ownerId, runId) = some stored ∨
      ∃ commit nowMs patch, op = .commit ownerId commit nowMs ∧ commit.lease.runId = runId ∧
        Committed digests s ownerId commit nowMs patch := by
  have hne : ∀ {k}, k ∉ s.runs → k ≠ (ownerId, runId) := by
    rintro _ hk rfl
    rw [storedRun_eq_none hk] at h
    cases h
  obtain hsame | hacc := step_cases digests s op
  · exact .inl (by rwa [hsame])
  · generalize step digests s op = s' at hacc ⊢
    cases hacc with
    | applyPolicy _ _ => exact .inl h
    | applyGrant _ _ => exact .inl h
    | createRun hc _ =>
      exact .inl (by rwa [storedRun_createdState, if_neg (hne (checkCreateRun_eq_ok hc).unseen)])
    | retryRun hs _ hc =>
      exact .inl (by rwa [storedRun_writeRetryRun, if_neg (hne (checkRetryRun_eq_ok hs hc).unseen)])
    | acquireLease _ => exact .inl (by rwa [storedRun_setLease])
    | renewLease _ => exact .inl (by rwa [storedRun_setLease])
    | commit hcom =>
      obtain ⟨b⟩ := buildCommitPatch_eq_ok hcom.built
      rw [b.storedRun_after]
      split_ifs with hkey
      · cases hkey
        exact .inr ⟨_, _, _, rfl, rfl, hcom⟩
      · exact .inl h

variable (digests) in
theorem storedRun_step_of_terminal {stored : StoredRun} (h : s.storedRun (ownerId, runId) = some stored)
    (ht : stored.run.state.isTerminal = true) (op : Op) :
    (step digests s op).storedRun (ownerId, runId) = some stored := by
  obtain hkept | ⟨commit, nowMs, patch, rfl, rfl, hcom⟩ := storedRun_step_cases digests h op
  · exact hkept
  · obtain ⟨b⟩ := buildCommitPatch_eq_ok hcom.built
    rw [storedRun_of_runs b.found] at h
    cases h
    rw [b.same_run.2.2.2.2.2.2] at ht
    cases ht

/-! ## Invariants of single runs -/

theorem runs_invariant {allowed : State → Op → Prop} {P : Uuid → Uuid → RunAggregate → Prop}
    (h : Reaches (step digests) allowed State.empty s)
    (hfresh : ∀ ownerId runId stored, stored.ownerId = ownerId → stored.run.id = runId →
      stored.run.state = .queued → stored.runVersion = 1 → P ownerId runId (.fresh stored))
    (hlease : ∀ ownerId runId a lease, P ownerId runId a → lease.validate = .ok () → lease.runId = runId →
      P ownerId runId { a with lease := some lease })
    (hcommit : ∀ s ownerId commit nowMs patch (b : Built digests s ownerId commit nowMs patch),
      Reaches (step digests) allowed State.empty s → allowed s (.commit ownerId commit nowMs) →
      Committed digests s ownerId commit nowMs patch → P ownerId commit.lease.runId b.aggregate →
      P ownerId commit.lease.runId (b.aggregate.patched patch))
    {a : RunAggregate} (ha : s.runs[(ownerId, runId)]? = some a) : P ownerId runId a := by
  suffices hall : ∀ (k : Uuid × Uuid) a, s.runs[k]? = some a → P k.1 k.2 a from hall _ _ ha
  refine invariant_of_accepted (P := fun s => ∀ (k : Uuid × Uuid) a, s.runs[k]? = some a → P k.1 k.2 a) h ?_ ?_
  · intro k a hk
    simp [State.empty] at hk
  · intro s op s' hr ih hal hacc k a hk
    cases hacc with
    | applyPolicy _ _ => exact ih k a hk
    | applyGrant _ _ => exact ih k a hk
    | createRun hc hst =>
      simp only [createdState, Table.getElem?_insert_eq] at hk
      split_ifs at hk with hkey
      · cases hk
        subst hkey
        exact hfresh _ _ _ (by rw [hst]) (by rw [hst]) (by rw [hst]; exact (checkCreateRun_eq_ok hc).queued)
          (by rw [hst])
      · exact ih k a hk
    | retryRun hs _ hc =>
      simp only [writeRetryRun, Table.getElem?_insert_eq] at hk
      split_ifs at hk with hkey
      · cases hk
        subst hkey
        have hchecked := checkRetryRun_eq_ok hs hc
        exact hfresh _ _ _ hchecked.stored_owner (congrArg RunWire.id hchecked.stored_run)
          (congrArg RunWire.state hchecked.stored_run) hchecked.stored_versions.1
      · exact ih k a hk
    | acquireLease hg =>
      obtain ⟨_, hval, hrun, _⟩ := grantLease_eq_ok hg
      rw [runs_setLease] at hk
      split_ifs at hk with hkey
      · subst hkey
        obtain ⟨a', ha', rfl⟩ := Option.map_eq_some_iff.mp hk
        exact hlease _ _ _ _ (ih _ _ ha') hval hrun
      · exact ih k a hk
    | renewLease he =>
      obtain ⟨_, hval, hrun, _⟩ := extendLease_eq_ok he
      rw [runs_setLease] at hk
      split_ifs at hk with hkey
      · subst hkey
        obtain ⟨a', ha', rfl⟩ := Option.map_eq_some_iff.mp hk
        exact hlease _ _ _ _ (ih _ _ ha') hval hrun
      · exact ih k a hk
    | commit hcom =>
      obtain ⟨b⟩ := buildCommitPatch_eq_ok hcom.built
      rw [b.runs_after] at hk
      split_ifs at hk with hkey
      · cases hk
        subst hkey
        exact hcommit _ _ _ _ _ b hr hal hcom (ih _ _ b.found)
      · exact ih k a hk

theorem Accepted.run_cases {op : Op} (hacc : Accepted digests s op s') {k : Uuid × Uuid} {a : RunAggregate}
    (ha : s.runs[k]? = some a) :
    s'.runs[k]? = some a ∨ (∃ lease, s'.runs[k]? = some { a with lease := some lease }) ∨
      ∃ ownerId commit nowMs patch, ∃ b : Built digests s ownerId commit nowMs patch, b.aggregate = a ∧
        Committed digests s ownerId commit nowMs patch ∧ k = (ownerId, commit.lease.runId) ∧
        op = .commit ownerId commit nowMs ∧ s'.runs[k]? = some (a.patched patch) := by
  have hne : ∀ {k'}, k' ∉ s.runs → k' ≠ k := by
    rintro _ hk rfl
    exact hk (Table.mem_of_getElem? ha)
  cases hacc with
  | applyPolicy _ _ => exact .inl ha
  | applyGrant _ _ => exact .inl ha
  | createRun hc _ =>
    refine .inl ?_
    rwa [createdState, Table.getElem?_insert_eq, if_neg (hne (checkCreateRun_eq_ok hc).unseen)]
  | retryRun hs _ hc =>
    refine .inl ?_
    rwa [writeRetryRun, Table.getElem?_insert_eq, if_neg (hne (checkRetryRun_eq_ok hs hc).unseen)]
  | acquireLease _ =>
    rw [runs_setLease, ha]
    split_ifs
    · exact .inr (.inl ⟨_, rfl⟩)
    · exact .inl rfl
  | renewLease _ =>
    rw [runs_setLease, ha]
    split_ifs
    · exact .inr (.inl ⟨_, rfl⟩)
    · exact .inl rfl
  | commit hcom =>
    obtain ⟨b⟩ := buildCommitPatch_eq_ok hcom.built
    rw [b.runs_after]
    split_ifs with hkey
    · subst hkey
      rw [b.found] at ha
      cases ha
      exact .inr (.inr ⟨_, _, _, _, b, rfl, hcom, rfl, rfl, rfl⟩)
    · exact .inl ha

theorem run_kept {allowed : State → Op → Prop} {P : RunAggregate → Prop}
    (h : Reaches (step digests) allowed s s')
    (hlease : ∀ a lease, P a → P { a with lease := some lease })
    (hcommit : ∀ s ownerId commit nowMs patch (b : Built digests s ownerId commit nowMs patch),
      P b.aggregate → P (b.aggregate.patched patch))
    {k : Uuid × Uuid} {a : RunAggregate} (ha : s.runs[k]? = some a) (hp : P a) :
    ∃ a', s'.runs[k]? = some a' ∧ P a' := by
  refine h.invariant (P := fun s' => ∃ a', s'.runs[k]? = some a' ∧ P a') ⟨a, ha, hp⟩ ?_
  rintro s op - ⟨a, ha, hp⟩ -
  obtain hsame | hacc := step_cases digests s op
  · exact ⟨a, by rwa [hsame], hp⟩
  · obtain hsame | ⟨lease, hnew⟩ | ⟨_, _, _, _, b, rfl, _, _, _, hnew⟩ := hacc.run_cases ha
    · exact ⟨a, hsame, hp⟩
    · exact ⟨_, hnew, hlease a lease hp⟩
    · exact ⟨_, hnew, hcommit _ _ _ _ _ b hp⟩

theorem run_keyed {allowed : State → Op → Prop} (h : Reaches (step digests) allowed State.empty s)
    {a : RunAggregate} (ha : s.runs[(ownerId, runId)]? = some a) :
    a.stored.ownerId = ownerId ∧ a.stored.run.id = runId := by
  refine runs_invariant (P := fun ownerId runId a => a.stored.ownerId = ownerId ∧ a.stored.run.id = runId) h
    (fun _ _ _ ho hr _ _ => ⟨ho, hr⟩) (fun _ _ _ _ hk _ _ => hk) ?_ ha
  intro s ownerId commit nowMs patch b _ _ hcom _
  exact ⟨b.stored_owner, by rw [RunAggregate.patched_stored, b.stored_run]; exact hcom.run_eq.2⟩

end AnimaCore
