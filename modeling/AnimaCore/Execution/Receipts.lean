import AnimaCore.Execution.Transitions

/-!
# AnimaCore.Execution.Receipts — commands are idempotent

An accepted command leaves a receipt, an index entry and an outcome under its identity.  Two operations write them:
`retry_run` where there is no index entry, `commit_execution` where there is no receipt.

* `Aligned`: the three tables have the same keys and agree.
* `commit_idempotent`: a commit that was accepted answers the same for ever after and changes nothing, and another
  commit under its identity is a conflict.  `retry_idempotent`: a retry that was accepted makes no second run.
-/

namespace AnimaCore

open Lib

variable {digests : Digests} {s s' : State} {ownerId runId : Uuid} {op : Op} {commit : ExecutionCommit} {nowMs : ℕ}

/-! ## Alignment of the command tables -/

structure Recorded (s : State) (k : Uuid × Uuid) (receipt : CommandReceipt) (index : CommandIndexRecord)
    (outcome : ExecutionCommitOutcome) : Prop where
  receipt_at : s.receipts[k]? = some receipt
  index_at : s.commands[k]? = some index
  outcome_at : s.outcomes[k]? = some outcome
  id_eq : receipt.commandId = k.2
  digest_eq : index.payloadDigest = receipt.payloadDigest
  receipt_eq : outcome.receipt = receipt

structure Unrecorded (s : State) (k : Uuid × Uuid) : Prop where
  receipt_at : s.receipts[k]? = none
  index_at : s.commands[k]? = none
  outcome_at : s.outcomes[k]? = none

/-- Every command is recorded in all three tables or in none. -/
def Aligned (s : State) : Prop :=
  ∀ k : Uuid × Uuid, Unrecorded s k ∨ ∃ receipt index outcome, Recorded s k receipt index outcome

theorem Aligned.recorded_of_receipt (h : Aligned s) {k : Uuid × Uuid} {receipt : CommandReceipt}
    (hk : s.receipts[k]? = some receipt) : ∃ index outcome, Recorded s k receipt index outcome := by
  obtain hu | ⟨receipt', index, outcome, hr⟩ := h k
  · rw [hu.receipt_at] at hk
    cases hk
  · obtain rfl := Option.some.inj (hr.receipt_at.symm.trans hk)
    exact ⟨index, outcome, hr⟩

theorem Accepted.command_tables (hacc : Accepted digests s op s') :
    (s'.receipts = s.receipts ∧ s'.commands = s.commands ∧ s'.outcomes = s.outcomes) ∨
      ∃ (k : Uuid × Uuid) (receipt : CommandReceipt) (index : CommandIndexRecord) (outcome : ExecutionCommitOutcome),
        (s.receipts[k]? = none ∨ s.commands[k]? = none) ∧ s'.receipts = s.receipts.insert k receipt ∧
        s'.commands = s.commands.insert k index ∧ s'.outcomes = s.outcomes.insert k outcome ∧
        receipt.commandId = k.2 ∧ index.payloadDigest = receipt.payloadDigest ∧ outcome.receipt = receipt := by
  cases hacc with
  | applyPolicy _ _ => exact .inl ⟨rfl, rfl, rfl⟩
  | applyGrant _ _ => exact .inl ⟨rfl, rfl, rfl⟩
  | createRun _ _ => exact .inl ⟨rfl, rfl, rfl⟩
  | retryRun hs hu hc =>
    have hid := congrArg RuntimeCommandWire.id (checkRetryRun_eq_ok hs hc).command_eq
    exact .inr ⟨_, _, _, _, .inr hu, rfl, rfl, rfl, hid, rfl, rfl⟩
  | acquireLease _ => exact .inl ⟨rfl, rfl, rfl⟩
  | renewLease _ => exact .inl ⟨rfl, rfl, rfl⟩
  | commit hcom =>
    obtain ⟨b⟩ := buildCommitPatch_eq_ok hcom.built
    refine .inr ⟨_, _, _, _, .inl ?_, rfl, rfl, rfl, rfl, ?_, rfl⟩
    · rw [b.receipt_eq]
      exact hcom.unseen
    · rw [b.commandIndex_eq, b.receipt_eq]
      rfl

theorem aligned_of_accepted (h : Aligned s) (hacc : Accepted digests s op s') : Aligned s' := by
  obtain ⟨hr, hc, ho⟩ | ⟨key, receipt, index, outcome, hnew, hr, hc, ho, hid, hdig, hrec⟩ := hacc.command_tables
  · intro k
    obtain hu | ⟨receipt, index, outcome, hk⟩ := h k
    · exact .inl ⟨by rw [hr]; exact hu.receipt_at, by rw [hc]; exact hu.index_at, by rw [ho]; exact hu.outcome_at⟩
    · exact .inr ⟨receipt, index, outcome, by rw [hr]; exact hk.receipt_at, by rw [hc]; exact hk.index_at,
        by rw [ho]; exact hk.outcome_at, hk.id_eq, hk.digest_eq, hk.receipt_eq⟩
  · intro k
    by_cases hkey : key = k
    · subst hkey
      exact .inr ⟨receipt, index, outcome, by simp [hr], by simp [hc], by simp [ho], hid, hdig, hrec⟩
    · obtain hu | ⟨receipt', index', outcome', hk⟩ := h k
      · exact .inl ⟨by simp [hr, Table.getElem?_insert_eq, hkey, hu.receipt_at],
          by simp [hc, Table.getElem?_insert_eq, hkey, hu.index_at],
          by simp [ho, Table.getElem?_insert_eq, hkey, hu.outcome_at]⟩
      · exact .inr ⟨receipt', index', outcome', by simp [hr, Table.getElem?_insert_eq, hkey, hk.receipt_at],
          by simp [hc, Table.getElem?_insert_eq, hkey, hk.index_at],
          by simp [ho, Table.getElem?_insert_eq, hkey, hk.outcome_at], hk.id_eq, hk.digest_eq, hk.receipt_eq⟩

theorem aligned_of_reaches {allowed : State → Op → Prop} (h : Reaches (step digests) allowed State.empty s) :
    Aligned s := by
  refine invariant_of_accepted h ?_ fun _ _ _ _ hp _ hacc => aligned_of_accepted hp hacc
  intro k
  exact .inl ⟨by simp [State.empty], by simp [State.empty], by simp [State.empty]⟩

/-! ## Records stay -/

theorem Recorded.of_accepted {k : Uuid × Uuid} {receipt : CommandReceipt} {index : CommandIndexRecord}
    {outcome : ExecutionCommitOutcome} (hk : Recorded s k receipt index outcome) (hacc : Accepted digests s op s') :
    Recorded s' k receipt index outcome := by
  obtain ⟨hr, hc, ho⟩ | ⟨key, receipt', index', outcome', hnew, hr, hc, ho, _⟩ := hacc.command_tables
  · exact ⟨by rw [hr]; exact hk.receipt_at, by rw [hc]; exact hk.index_at, by rw [ho]; exact hk.outcome_at, hk.id_eq,
      hk.digest_eq, hk.receipt_eq⟩
  · have hkey : key ≠ k := by
      rintro rfl
      obtain hnew | hnew := hnew
      · rw [hk.receipt_at] at hnew
        cases hnew
      · rw [hk.index_at] at hnew
        cases hnew
    exact ⟨by simp [hr, Table.getElem?_insert_eq, hkey, hk.receipt_at],
      by simp [hc, Table.getElem?_insert_eq, hkey, hk.index_at],
      by simp [ho, Table.getElem?_insert_eq, hkey, hk.outcome_at], hk.id_eq, hk.digest_eq, hk.receipt_eq⟩

theorem recorded_step {k : Uuid × Uuid} {receipt : CommandReceipt} {index : CommandIndexRecord}
    {outcome : ExecutionCommitOutcome} (hk : Recorded s k receipt index outcome) (op : Op) :
    Recorded (step digests s op) k receipt index outcome := by
  obtain hsame | hacc := step_cases digests s op
  · rwa [hsame]
  · exact hk.of_accepted hacc

theorem recorded_run {k : Uuid × Uuid} {receipt : CommandReceipt} {index : CommandIndexRecord}
    {outcome : ExecutionCommitOutcome} (hk : Recorded s k receipt index outcome) (ops : List Op) :
    Recorded (run (step digests) s ops) k receipt index outcome :=
  run_induction (step digests) s (P := fun _ s => Recorded s k receipt index outcome) ops hk
    fun _ op hrec => recorded_step hrec op

/-! ## Commits -/

theorem Built.recorded {patch : CommitPatch} (b : Built digests s ownerId commit nowMs patch) :
    Recorded (applyCommitPatch s ownerId commit.lease.runId patch patch.outcome) (ownerId, commit.command.id)
      patch.receipt patch.commandIndex patch.outcome := by
  have hkey : (ownerId, patch.receipt.commandId) = (ownerId, commit.command.id) := by rw [b.receipt_eq]; rfl
  refine ⟨?_, ?_, ?_, congrArg Prod.snd hkey, by rw [b.commandIndex_eq, b.receipt_eq]; rfl, rfl⟩
  · simp [applyCommitPatch, hkey]
  · simp [applyCommitPatch, hkey]
  · simp [applyCommitPatch, hkey]

theorem commit_recorded (h : Aligned s) {outcome : ExecutionCommitOutcome}
    (hok : (commitExecution digests ownerId commit nowMs s).1 = .ok outcome) :
    checkCommit digests commit = .ok () ∧
      ∃ receipt index, Recorded (step digests s (.commit ownerId commit nowMs)) (ownerId, commit.command.id)
          receipt index outcome ∧
        receipt.payloadDigest = commit.command.payloadDigest digests := by
  cases hb : checkCommit digests commit with
  | error e => simp [commitExecution, hb] at hok
  | ok u =>
    refine ⟨rfl, ?_⟩
    cases hr : s.receipts[(ownerId, commit.command.id)]? with
    | some receipt =>
      -- a replay: the state is unchanged, and the receipt was checked against the command
      have hstale : freshlyAccepted digests s ownerId commit nowMs = false := by simp [freshlyAccepted, hr]
      obtain ⟨index, outcome', hrec⟩ := h.recorded_of_receipt hr
      simp only [commitExecution, hb, hr, replayCommit] at hok
      split at hok
      · cases hok
      · next hreplay =>
        simp only [CommandReceipt.replay, bind_eq_ok, ensure_eq_ok] at hreplay
        obtain ⟨_, ⟨_, hdig⟩, _⟩ := hreplay
        rw [okOr_eq_ok, hrec.outcome_at] at hok
        cases hok
        rw [step_commit_of_not_fresh hstale]
        exact ⟨receipt, index, hrec, hdig⟩
    | none =>
      cases hp : buildCommitPatch digests s ownerId commit nowMs with
      | error e => simp [commitExecution, hb, hr, hp] at hok
      | ok patch =>
        have hcom : Committed digests s ownerId commit nowMs patch := ⟨hb, hr, hp⟩
        obtain ⟨b⟩ := buildCommitPatch_eq_ok hp
        rw [hcom.exec_eq] at hok
        cases hok
        rw [hcom.step_eq]
        exact ⟨patch.receipt, patch.commandIndex, b.recorded, by rw [b.receipt_eq]; rfl⟩

theorem commitExecution_of_recorded {receipt : CommandReceipt} {index : CommandIndexRecord}
    {outcome : ExecutionCommitOutcome} (hb : checkCommit digests commit = .ok ())
    (hrec : Recorded s (ownerId, commit.command.id) receipt index outcome) :
    commitExecution digests ownerId commit nowMs s =
      if receipt.payloadDigest = commit.command.payloadDigest digests then (.ok outcome, s)
      else (.error .commandConflict, s) := by
  have hid : receipt.commandId = commit.command.id := hrec.id_eq
  by_cases hd : receipt.payloadDigest = commit.command.payloadDigest digests
  · have hreplay : receipt.replay digests commit.command = .ok receipt.outcome := by
      simp only [CommandReceipt.replay, bind_eq_ok, ensure_eq_ok]
      exact ⟨(), ⟨hid, hd⟩, rfl⟩
    simp [commitExecution, hb, hrec.receipt_at, replayCommit, hreplay, hrec.outcome_at, okOr, hd]
  · have hreplay : receipt.replay digests commit.command = .error .commandConflict := by
      simp [CommandReceipt.replay, ensure, hd, bind, Except.bind]
    simp [commitExecution, hb, hrec.receipt_at, replayCommit, hreplay, hd]

/-! ## Retries -/

def retryIndex (digests : Digests) (request : RetryRun) (sessionId : Uuid) (command : RuntimeCommand) :
    CommandIndexRecord :=
  { sessionId, runId := request.sourceRunId, kind := .retry, payloadDigest := command.payloadDigest digests }

/-- What an accepted retry leaves behind: its terminal source, its record and its new run. -/
structure Retried (digests : Digests) (s : State) (ownerId : Uuid) (request : RetryRun) (source : StoredRun)
    (command : RuntimeCommand) (receipt : CommandReceipt) (outcome : ExecutionCommitOutcome) : Prop where
  owner_valid : isNil ownerId = false
  source_at : s.storedRun (ownerId, request.sourceRunId) = some source
  terminal : source.run.state = .failed ∨ source.run.state = .cancelled
  command_eq : RuntimeCommand.retry request.commandId source.run.sessionId request.sourceRunId request.newRunId =
    .ok command
  recorded : Recorded s (ownerId, request.commandId) receipt (retryIndex digests request source.run.sessionId command)
    outcome
  target_at : (s.storedRun (ownerId, request.newRunId)).isSome = true

theorem retrySource_eq_ok {request : RetryRun} {source : RunAggregate} {command : RuntimeCommand} :
    retrySource ownerId request s = .ok (source, command) ↔
      isNil ownerId = false ∧ s.runs[(ownerId, request.sourceRunId)]? = some source ∧
        (source.stored.run.state = .failed ∨ source.stored.run.state = .cancelled) ∧
        RuntimeCommand.retry request.commandId source.stored.run.sessionId request.sourceRunId request.newRunId =
          .ok command := by
  simp only [retrySource, bind_eq_ok, ensure_eq_ok, okOr_eq_ok, toStore_eq_ok]
  constructor
  · rintro ⟨_, ho, source', hf, _, ht, command', hc, h⟩
    cases h
    exact ⟨ho, hf, ht, hc⟩
  · rintro ⟨ho, hf, ht, hc⟩
    exact ⟨(), ho, source, hf, (), ht, command, hc, rfl⟩

theorem retried_of_ok (h : Aligned s) {request : RetryRun} {result : RetryRunOutcome}
    (hok : (retryRun digests ownerId request s).1 = .ok result) :
    ∃ source command outcome,
      Retried digests (step digests s (.retryRun ownerId request)) ownerId request source command result.receipt
        outcome := by
  cases hs : retrySource ownerId request s with
  | error e => simp [retryRun, hs] at hok
  | ok made =>
    obtain ⟨source, command⟩ := made
    obtain ⟨ho, hf, ht, hc⟩ := retrySource_eq_ok.mp hs
    cases hx : s.commands[(ownerId, request.commandId)]? with
    | some existing =>
      have hstep : step digests s (.retryRun ownerId request) = s := by
        simp [step, exec, reply, retryRun, hs, hx]
      rw [hstep]
      simp only [retryRun, hs, hx, replayRetryRun, bind_eq_ok, ensure_eq_ok, okOr_eq_ok, RetryRunOutcome.new] at hok
      obtain ⟨_, ⟨hsid, hrid, hkind, hdig⟩, target, htarget, receipt, hreceipt, _, _, hres⟩ := hok
      cases hres
      obtain ⟨index, outcome, hrec⟩ := h.recorded_of_receipt hreceipt
      have hindex : index = retryIndex digests request source.stored.run.sessionId command := by
        rw [hrec.index_at] at hx
        cases hx
        cases existing
        simp_all [retryIndex]
      exact ⟨source.stored, command, outcome, ho, storedRun_of_runs hf, ht, hc, hindex ▸ hrec,
        by rw [storedRun_of_runs htarget]; rfl⟩
    | none =>
      cases hch : checkRetryRun ownerId request source.stored s with
      | error e => simp [retryRun, hs, hx, hch] at hok
      | ok made =>
        obtain ⟨session, stored⟩ := made
        have hstep : step digests s (.retryRun ownerId request) =
            writeRetryRun digests ownerId request source command session stored s := by
          simp [step, exec, reply, retryRun, hs, hx, hch]
        have hid := congrArg RuntimeCommandWire.id (RuntimeCommand.new_eq_ok hc)
        simp only [retryRun, hs, hx, hch, RetryRunOutcome.new, bind_eq_ok] at hok
        obtain ⟨_, _, hres⟩ := hok
        cases hres
        rw [hstep]
        have hne : (ownerId, request.newRunId) ≠ (ownerId, request.sourceRunId) := by
          intro heq
          exact request.valid.2.2.2 (congrArg Prod.snd heq).symm
        refine ⟨source.stored, command,
          { storedRun := source.stored, receipt := CommandReceipt.accepted digests command
            checkpointVersion := source.checkpointVersion, checkpoint := none, grantConsumption := none },
          ho, ?_, ht, hc, ⟨?_, ?_, ?_, hid, rfl, rfl⟩, ?_⟩
        · rw [storedRun_writeRetryRun, if_neg hne]
          exact storedRun_of_runs hf
        · simp [writeRetryRun]
        · simp [writeRetryRun, retryIndex]
        · simp [writeRetryRun]
        · rw [storedRun_writeRetryRun, if_pos rfl]
          rfl

theorem retried_step {request : RetryRun} {source : StoredRun} {command : RuntimeCommand} {receipt : CommandReceipt}
    {outcome : ExecutionCommitOutcome} (h : Retried digests s ownerId request source command receipt outcome) (op : Op) :
    Retried digests (step digests s op) ownerId request source command receipt outcome := by
  have hterm : source.run.state.isTerminal = true := by
    obtain ht | ht := h.terminal <;> rw [ht] <;> rfl
  refine { h with
    source_at := storedRun_step_of_terminal digests h.source_at hterm op
    recorded := recorded_step h.recorded op
    target_at := ?_ }
  obtain ⟨target, htarget⟩ := Option.isSome_iff_exists.mp h.target_at
  obtain hkept | ⟨commit, nowMs, patch, rfl, hrun, hcom⟩ := storedRun_step_cases digests htarget op
  · rw [hkept]
    rfl
  · obtain ⟨b⟩ := buildCommitPatch_eq_ok hcom.built
    rw [hcom.step_eq, b.storedRun_after, if_pos (by rw [hrun])]
    rfl

theorem retryRun_of_retried {request : RetryRun} {source : StoredRun} {command : RuntimeCommand}
    {receipt : CommandReceipt} {outcome : ExecutionCommitOutcome}
    (h : Retried digests s ownerId request source command receipt outcome)
    (hkeyed : ∀ a, s.runs[(ownerId, request.newRunId)]? = some a → a.stored.run.id = request.newRunId) :
    ∃ target, s.storedRun (ownerId, request.newRunId) = some target ∧
      retryRun digests ownerId request s = (.ok { sourceRunId := request.sourceRunId, run := target, receipt }, s) := by
  obtain ⟨sourceAt, hsourceAt, hsource⟩ := Option.map_eq_some_iff.mp h.source_at
  obtain ⟨target, htarget⟩ := Option.isSome_iff_exists.mp h.target_at
  obtain ⟨targetAt, htargetAt, rfl⟩ := Option.map_eq_some_iff.mp htarget
  subst hsource
  have hs : retrySource ownerId request s = .ok (sourceAt, command) :=
    retrySource_eq_ok.mpr ⟨h.owner_valid, hsourceAt, h.terminal, h.command_eq⟩
  have hreplay : replayRetryRun digests ownerId request sourceAt.stored.run.sessionId command
      (retryIndex digests request sourceAt.stored.run.sessionId command) s =
        .ok { sourceRunId := request.sourceRunId, run := targetAt.stored, receipt } := by
    simp only [replayRetryRun, bind_eq_ok, ensure_eq_ok, okOr_eq_ok, RetryRunOutcome.new]
    refine ⟨(), ⟨rfl, rfl, rfl, rfl⟩, targetAt, htargetAt, receipt, h.recorded.receipt_at, (), ?_, rfl⟩
    exact ⟨request.valid.2.1, by rw [hkeyed targetAt htargetAt]; exact request.valid.2.2.2⟩
  exact ⟨targetAt.stored, storedRun_of_runs htargetAt, by simp only [retryRun, hs, h.recorded.index_at, hreplay]⟩

/-! ## Idempotence -/

/-- **Command idempotence**: after a commit or a retry was accepted and any further calls, submitting it again
answers the same and changes nothing, and a commit that reuses the identity for something else is a conflict. -/
theorem command_idempotent (digests : Digests) (s : State) (h : Reaches (step digests) anyInput State.empty s)
    (ownerId : Uuid) (ops : List Op) :
    (∀ commit nowMs outcome, (commitExecution digests ownerId commit nowMs s).1 = .ok outcome →
      let later := run (step digests) s (.commit ownerId commit nowMs :: ops)
      (∀ nowMs', commitExecution digests ownerId commit nowMs' later = (.ok outcome, later)) ∧
      ∀ (other : ExecutionCommit) nowMs', other.validateBounds digests = .ok () →
        other.command.targetRunId = other.lease.runId → other.targetRun.id = other.lease.runId →
        other.command.id = commit.command.id →
        (other.command.sessionId ≠ commit.command.sessionId ∨ other.command.payload ≠ commit.command.payload) →
        (commit.command.payloadDigest digests = other.command.payloadDigest digests →
          commit.command.sessionId = other.command.sessionId ∧ commit.command.payload = other.command.payload) →
        commitExecution digests ownerId other nowMs' later = (.error .commandConflict, later)) ∧
    ∀ request result, (retryRun digests ownerId request s).1 = .ok result →
      let later := run (step digests) s (.retryRun ownerId request :: ops)
      ∃ target, later.storedRun (ownerId, request.newRunId) = some target ∧
        retryRun digests ownerId request later =
          (.ok { sourceRunId := request.sourceRunId, run := target, receipt := result.receipt }, later) := by
  have hal := aligned_of_reaches h
  constructor
  · intro commit nowMs outcome hok later
    obtain ⟨hb, receipt, index, hrec, hdig⟩ := commit_recorded hal hok
    have hlater : Recorded later (ownerId, commit.command.id) receipt index outcome := recorded_run hrec ops
    refine ⟨?_, ?_⟩
    · intro nowMs'
      rw [commitExecution_of_recorded hb hlater, if_pos hdig]
    · intro other nowMs' hbounds hrun htarget hid hdiff hinj
      have hb' : checkCommit digests other = .ok () := by
        simp only [checkCommit, bind_eq_ok, ensure_eq_ok]
        exact ⟨(), hbounds, hrun, htarget⟩
      rw [← hid] at hlater
      rw [commitExecution_of_recorded hb' hlater, if_neg]
      intro hsame
      obtain ⟨hsid, hpay⟩ := hinj (hdig.symm.trans hsame)
      obtain hne | hne := hdiff
      · exact hne hsid.symm
      · exact hne hpay.symm
  · intro request result hok later
    obtain ⟨source, command, outcome, hret⟩ := retried_of_ok hal hok
    have hlater : Retried digests later ownerId request source command result.receipt outcome :=
      run_induction (step digests) (step digests s (.retryRun ownerId request))
        (P := fun _ s => Retried digests s ownerId request source command result.receipt outcome) ops hret
        fun _ op hr => retried_step hr op
    have hreach : Reaches (step digests) anyInput State.empty later := h.trans (reaches_run _)
    exact retryRun_of_retried hlater fun a ha => (run_keyed hreach ha).2

theorem start_resubmitted :
    ∃ outcome, (commitExecution Sample.digests Sample.ownerId Sample.start 10
        (run (step Sample.digests) State.empty [Sample.createRun, Sample.acquireLease])).1 = .ok outcome ∧
      commitExecution Sample.digests Sample.ownerId Sample.start 99 Sample.started = (.ok outcome, Sample.started) := by
  have hok : (commitExecution Sample.digests Sample.ownerId Sample.start 10
      (run (step Sample.digests) State.empty [Sample.createRun, Sample.acquireLease])).1.isOk = true := by decide +kernel
  cases h : (commitExecution Sample.digests Sample.ownerId Sample.start 10
      (run (step Sample.digests) State.empty [Sample.createRun, Sample.acquireLease])).1 with
  | error e =>
    rw [h] at hok
    cases hok
  | ok outcome =>
    exact ⟨outcome, rfl, ((command_idempotent Sample.digests _ (reaches_run _) Sample.ownerId []).1 _ 10 outcome h).1 99⟩

end AnimaCore
