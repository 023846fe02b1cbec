import AnimaCore.Execution.Grants
import AnimaCore.Execution.Reads
import AnimaCore.Lib.Shard

/-!
# AnimaCore.Execution.Isolation — the entries of one owner

Every table of the store is keyed by an owner first.  `Op.owner` is the owner that a call is made for; owner ids occur
also inside requests, grants, policies, guards, events and cursors, and the results here are about the argument.

* `Agree owner s t`: the two states have the same entries of `owner`, in all ten tables.
-/

namespace AnimaCore

open Lib

def Op.owner : Op → Uuid
  | .applyPolicy ownerId _ => ownerId
  | .applyGrant ownerId _ => ownerId
  | .createRun ownerId _ => ownerId
  | .retryRun ownerId _ => ownerId
  | .acquireLease ownerId _ _ _ _ _ => ownerId
  | .renewLease ownerId _ _ _ => ownerId
  | .commit ownerId _ _ => ownerId

/-- The two states have the same entries of one owner. -/
structure Agree (owner : Uuid) (s t : State) : Prop where
  sessions : SameShard owner s.sessions t.sessions
  runs : SameShard owner s.runs t.runs
  serialClaims : SameShard owner s.serialClaims t.serialClaims
  receipts : SameShard owner s.receipts t.receipts
  commands : SameShard owner s.commands t.commands
  outcomes : SameShard owner s.outcomes t.outcomes
  grants : SameShard owner s.authoritativeGrants t.authoritativeGrants
  policies : SameShard owner s.authoritativePolicies t.authoritativePolicies
  consumptions : SameMembers owner s.grantConsumptions t.grantConsumptions
  approvals : SameShard owner s.approvals t.approvals

variable {digests : Digests} {s t : State} {ownerId runId other : Uuid} {commit : ExecutionCommit} {nowMs : ℕ}

theorem Agree.refl (owner : Uuid) (s : State) : Agree owner s s :=
  ⟨.refl _, .refl _, .refl _, .refl _, .refl _, .refl _, .refl _, .refl _, fun _ => Iff.rfl, .refl _⟩

/-! ## What a commit reads -/

section Reads

variable (h : Agree ownerId s t)

include h

theorem checkPolicyGuard_congr : checkPolicyGuard s ownerId commit nowMs = checkPolicyGuard t ownerId commit nowMs := by
  unfold checkPolicyGuard
  simp only [h.policies (_, _)]

theorem checkEvents_congr (a : RunAggregate) : checkEvents s ownerId runId a commit = checkEvents t ownerId runId a commit := by
  unfold checkEvents
  simp only [h.sessions _]

theorem patchGrants_congr (a : RunAggregate) :
    patchGrants digests s ownerId a commit nowMs = patchGrants digests t ownerId a commit nowMs := by
  have hconsume : ∀ approval binding authoritative,
      consumeApprovalGrant digests s ownerId approval binding authoritative nowMs =
        consumeApprovalGrant digests t ownerId approval binding authoritative nowMs := by
    intro approval binding authoritative
    unfold consumeApprovalGrant
    simp only [h.consumptions (_, _, _)]
  have happroval : ∀ approval, patchApprovalGrant digests s ownerId approval nowMs =
      patchApprovalGrant digests t ownerId approval nowMs := by
    intro approval
    unfold patchApprovalGrant
    simp only [h.grants _, hconsume]
  have hdispatch : ∀ before, patchDispatchGrant digests s ownerId commit nowMs before =
      patchDispatchGrant digests t ownerId commit nowMs before := by
    intro before
    unfold patchDispatchGrant
    simp only [h.grants _, h.consumptions (_, _, _)]
  unfold patchGrants patchApproval
  simp only [happroval, hdispatch]

theorem patchStored_congr (a : RunAggregate) (session : StoredSession) :
    patchStored s ownerId runId a commit session = patchStored t ownerId runId a commit session := by
  unfold patchStored
  simp only [h.serialClaims _]

theorem approvalIndexUpdate_congr :
    approvalIndexUpdate s ownerId runId commit = approvalIndexUpdate t ownerId runId commit := by
  unfold approvalIndexUpdate
  simp only [h.approvals _, h.approvals.mem_iff]

theorem approvalIndexRemoval_congr (a : RunAggregate) :
    approvalIndexRemoval s ownerId runId a commit = approvalIndexRemoval t ownerId runId a commit := by
  unfold approvalIndexRemoval
  simp only [h.approvals _]

theorem buildCommitPatch_congr :
    buildCommitPatch digests s ownerId commit nowMs = buildCommitPatch digests t ownerId commit nowMs := by
  unfold buildCommitPatch
  simp only [h.runs _, checkPolicyGuard_congr h, checkEvents_congr h, patchGrants_congr h, patchStored_congr h,
    approvalIndexUpdate_congr h, approvalIndexRemoval_congr h]

end Reads

/-! ## What a commit writes -/

theorem Built.consumptionKey_owner {patch : CommitPatch} (b : Built digests s ownerId commit nowMs patch)
    {key : ConsumptionKey} (hk : patch.grantConsumptionKey = some key) : key.1 = ownerId := by
  rw [b.patchGrants_eq.2.1] at hk
  obtain ⟨_, hidle, _⟩ | ⟨consumption, _, _, _, _, _, hkey⟩ := patchGrants_cases b.grants_eq
  · rw [hidle] at hk
    cases hk
  · rw [hkey] at hk
    cases hk
    rfl

theorem Agree.applyCommitPatch (h : Agree ownerId s t) {patch : CommitPatch} {outcome : ExecutionCommitOutcome}
    (hkey : ∀ key, patch.grantConsumptionKey = some key → key.1 = ownerId) :
    Agree ownerId (applyCommitPatch s ownerId runId patch outcome) (applyCommitPatch t ownerId runId patch outcome) := by
  constructor <;> simp only [AnimaCore.applyCommitPatch]
  · cases patch.sessionUpdate with
    | none => exact h.sessions
    | some session => exact h.sessions.insert _ _
  · exact h.runs.modify _ _
  · split_ifs
    · exact h.serialClaims.erase _
    · exact h.serialClaims
  · exact h.receipts.insert _ _
  · exact h.commands.insert _ _
  · exact h.outcomes.insert _ _
  · cases patch.authoritativeGrantUpdate with
    | none => exact h.grants
    | some grant => exact h.grants.insert _ _
  · exact h.policies
  · cases hk : patch.grantConsumptionKey with
    | none => exact h.consumptions
    | some key =>
      obtain rfl := hkey key hk
      exact h.consumptions.insert key.2
  · cases patch.approvalIndexRemoval with
    | none =>
      cases patch.approvalIndexUpdate with
      | none => exact h.approvals
      | some entry => exact h.approvals.insert _ _
    | some id =>
      have hremoved := h.approvals.erase id
      cases patch.approvalIndexUpdate with
      | none => exact hremoved
      | some entry => exact hremoved.insert _ _

theorem Agree.applyCommitPatch_other (hne : other ≠ ownerId) {patch : CommitPatch} {outcome : ExecutionCommitOutcome}
    (hkey : ∀ key, patch.grantConsumptionKey = some key → key.1 = ownerId) :
    Agree other s (AnimaCore.applyCommitPatch s ownerId runId patch outcome) := by
  constructor <;> simp only [AnimaCore.applyCommitPatch]
  · cases patch.sessionUpdate with
    | none => exact .refl _
    | some session => exact .insert_other hne
  · exact .modify_other hne
  · split_ifs
    · exact .erase_other hne
    · exact .refl _
  · exact .insert_other hne
  · exact .insert_other hne
  · exact .insert_other hne
  · cases patch.authoritativeGrantUpdate with
    | none => exact .refl _
    | some grant => exact .insert_other hne
  · exact .refl _
  · cases hk : patch.grantConsumptionKey with
    | none => exact fun _ => Iff.rfl
    | some key =>
      obtain rfl := hkey key hk
      exact SameMembers.insert_other hne
  · cases patch.approvalIndexRemoval with
    | none =>
      cases patch.approvalIndexUpdate with
      | none => exact .refl _
      | some entry => exact .insert_other hne
    | some id =>
      have hremoved : SameShard other s.approvals (s.approvals.erase (ownerId, id)) := .erase_other hne
      cases patch.approvalIndexUpdate with
      | none => exact hremoved
      | some entry => exact hremoved.trans (.insert_other hne)

/-! ## Calls -/

theorem exec_other (digests : Digests) (op : Op) (s : State) (hne : other ≠ op.owner) :
    Agree other s (exec digests op s).2 := by
  obtain hsame | hacc := step_cases digests s op
  · rw [step] at hsame
    rw [hsame]
    exact .refl _ _
  · rw [step] at hacc
    generalize (exec digests op s).2 = s' at hacc
    have href := Agree.refl other s
    cases hacc with
    | applyPolicy _ _ => exact { href with policies := .insert_other hne }
    | applyGrant _ _ => exact { href with grants := .insert_other hne }
    | @createRun ownerId request version stored _ _ =>
      refine { href with sessions := .insert_other hne, serialClaims := ?_, runs := .insert_other hne }
      show SameShard other s.serialClaims (if _ then _ else _)
      split_ifs
      · exact .insert_other hne
      · exact .refl _
    | @retryRun ownerId request source command session stored _ _ _ =>
      refine { href with sessions := .insert_other hne, serialClaims := ?_, runs := .insert_other hne
                         receipts := .insert_other hne, outcomes := .insert_other hne
                         commands := .insert_other hne }
      show SameShard other s.serialClaims (if _ then _ else _)
      split_ifs
      · exact .insert_other hne
      · exact .refl _
    | acquireLease _ => exact { href with runs := .modify_other hne }
    | renewLease _ => exact { href with runs := .modify_other hne }
    | commit committed =>
      obtain ⟨b⟩ := buildCommitPatch_eq_ok committed.built
      exact Agree.applyCommitPatch_other hne fun _ => b.consumptionKey_owner

/-- The two calls answer the same and leave states that agree on the owner. -/
def SameOutcome {α : Type} (owner : Uuid) (r r' : StoreResult α × State) : Prop :=
  r.1 = r'.1 ∧ Agree owner r.2 r'.2

theorem SameOutcome.reply {α : Type} {r r' : StoreResult α × State} (h : SameOutcome ownerId r r') (wrap : α → Reply) :
    SameOutcome ownerId (AnimaCore.reply wrap r) (AnimaCore.reply wrap r') :=
  ⟨congrArg (·.map wrap) h.1, h.2⟩

section TwoRuns

variable (h : Agree ownerId s t)

include h

theorem applyAuthoritativePolicy_congr (change : AuthoritativePolicyChange) :
    SameOutcome ownerId (applyAuthoritativePolicy ownerId change s) (applyAuthoritativePolicy ownerId change t) := by
  unfold applyAuthoritativePolicy
  simp only [h.policies (_, _)]
  split_ifs
  · exact ⟨rfl, h⟩
  · split
    · exact ⟨rfl, h⟩
    · split_ifs
      · exact ⟨rfl, h⟩
      · exact ⟨rfl, { h with policies := h.policies.insert _ _ }⟩

theorem applyAuthoritativeGrant_congr (change : AuthoritativeGrantChange) :
    SameOutcome ownerId (applyAuthoritativeGrant ownerId change s) (applyAuthoritativeGrant ownerId change t) := by
  unfold applyAuthoritativeGrant
  simp only [h.grants _]
  split_ifs
  · exact ⟨rfl, h⟩
  · split
    · exact ⟨rfl, h⟩
    · exact ⟨rfl, { h with grants := h.grants.insert _ _ }⟩

theorem createRun_congr (request : CreateRun) :
    SameOutcome ownerId (createRun ownerId request s) (createRun ownerId request t) := by
  have hcheck : checkCreateRun ownerId request s = checkCreateRun ownerId request t := by
    unfold checkCreateRun
    simp only [h.sessions _, h.runs.mem_iff, h.serialClaims.mem_iff]
  unfold createRun
  rw [hcheck]
  cases checkCreateRun ownerId request t with
  | error e => exact ⟨rfl, h⟩
  | ok version =>
    have hsession := h.sessions.insert request.session.id
      { version, ownerId := request.ownerId, definition := request.session.definition
        policy := request.concurrencyPolicy }
    have hclaim := h.serialClaims.insert request.session.id request.run.id
    dsimp only
    cases StoredRun.newWithInitialInput
      { ownerId, run := request.run, runVersion := 1, sessionVersion := version
        initialInput := request.initialInput } with
    | error e =>
      refine ⟨rfl, ?_⟩
      dsimp only
      split_ifs
      · exact { h with sessions := hsession, serialClaims := hclaim }
      · exact { h with sessions := hsession }
    | ok stored =>
      have hruns := h.runs.insert request.run.id (RunAggregate.fresh stored)
      refine ⟨rfl, ?_⟩
      dsimp only
      split_ifs
      · exact { h with sessions := hsession, serialClaims := hclaim, runs := hruns }
      · exact { h with sessions := hsession, runs := hruns }

theorem retryRun_congr (request : RetryRun) :
    SameOutcome ownerId (retryRun digests ownerId request s) (retryRun digests ownerId request t) := by
  have hsource : retrySource ownerId request s = retrySource ownerId request t := by
    unfold retrySource
    simp only [h.runs _]
  unfold retryRun
  rw [hsource, h.commands request.commandId]
  cases retrySource ownerId request t with
  | error e => exact ⟨rfl, h⟩
  | ok source =>
    obtain ⟨source, command⟩ := source
    dsimp only
    cases t.commands[(ownerId, request.commandId)]? with
    | some existing =>
      refine ⟨?_, h⟩
      unfold replayRetryRun
      simp only [h.runs _, h.receipts _]
    | none =>
      have hcheck : checkRetryRun ownerId request source.stored s = checkRetryRun ownerId request source.stored t := by
        unfold checkRetryRun
        simp only [h.sessions _, h.runs.mem_iff, h.serialClaims.mem_iff]
      dsimp only
      rw [hcheck]
      cases checkRetryRun ownerId request source.stored t with
      | error e => exact ⟨rfl, h⟩
      | ok checked =>
        refine ⟨rfl, ?_⟩
        unfold writeRetryRun
        refine { h with sessions := h.sessions.insert _ _, serialClaims := ?_, runs := h.runs.insert _ _
                        receipts := h.receipts.insert _ _, outcomes := h.outcomes.insert _ _
                        commands := h.commands.insert _ _ }
        dsimp only
        split_ifs
        · exact h.serialClaims.insert _ _
        · exact h.serialClaims

theorem setLease_congr (runId : Uuid) (lease : ExecutionLease) :
    Agree ownerId (s.setLease ownerId runId lease) (t.setLease ownerId runId lease) :=
  { h with runs := h.runs.modify _ _ }

theorem acquireLease_congr (runId : Uuid) (expectedRunVersion durationMs nowMs : ℕ) (fence : Uuid) :
    SameOutcome ownerId (acquireLease ownerId runId expectedRunVersion durationMs nowMs fence s)
      (acquireLease ownerId runId expectedRunVersion durationMs nowMs fence t) := by
  have hgrant : grantLease ownerId runId expectedRunVersion durationMs nowMs fence s =
      grantLease ownerId runId expectedRunVersion durationMs nowMs fence t := by
    unfold grantLease
    simp only [h.runs _]
  unfold acquireLease
  rw [hgrant]
  cases grantLease ownerId runId expectedRunVersion durationMs nowMs fence t with
  | error e => exact ⟨rfl, h⟩
  | ok lease => exact ⟨rfl, setLease_congr h runId lease⟩

theorem renewLease_congr (lease : ExecutionLease) (durationMs nowMs : ℕ) :
    SameOutcome ownerId (renewLease ownerId lease durationMs nowMs s) (renewLease ownerId lease durationMs nowMs t) := by
  have hextend : extendLease ownerId lease durationMs nowMs s = extendLease ownerId lease durationMs nowMs t := by
    unfold extendLease
    simp only [h.runs _]
  unfold renewLease
  rw [hextend]
  cases extendLease ownerId lease durationMs nowMs t with
  | error e => exact ⟨rfl, h⟩
  | ok renewed => exact ⟨rfl, setLease_congr h lease.runId renewed⟩

theorem commitExecution_congr (commit : ExecutionCommit) (nowMs : ℕ) :
    SameOutcome ownerId (commitExecution digests ownerId commit nowMs s)
      (commitExecution digests ownerId commit nowMs t) := by
  unfold commitExecution
  cases checkCommit digests commit with
  | error e => exact ⟨rfl, h⟩
  | ok _ =>
    dsimp only
    rw [h.receipts commit.command.id]
    cases t.receipts[(ownerId, commit.command.id)]? with
    | some receipt =>
      refine ⟨?_, h⟩
      unfold replayCommit
      simp only [h.outcomes _]
    | none =>
      dsimp only
      rw [buildCommitPatch_congr h]
      cases hb : buildCommitPatch digests t ownerId commit nowMs with
      | error e => exact ⟨rfl, h⟩
      | ok patch =>
        obtain ⟨b⟩ := buildCommitPatch_eq_ok hb
        exact ⟨rfl, h.applyCommitPatch fun _ => b.consumptionKey_owner⟩

theorem read_congr (cursorKey : BitVec 128) (op : ReadOp) :
    read digests cursorKey ownerId op s = read digests cursorKey ownerId op t := by
  cases op with
  | policy id version => simp only [read, loadAuthoritativePolicy, h.policies (_, _)]
  | grant key => simp only [read, loadAuthoritativeGrant, h.grants _]
  | run runId => simp only [read, loadRun, h.runs _]
  | checkpoint runId => simp only [read, loadCheckpoint, h.runs _]
  | steps runId page => simp only [read, loadStepsPage, h.runs _]
  | attempts runId page => simp only [read, loadAttemptsPage, h.runs _]
  | durableResult runId id => simp only [read, loadDurableResult, h.runs _]
  | events runId page => simp only [read, replayEvents, h.runs _]

end TwoRuns

theorem exec_congr (op : Op) (h : Agree op.owner s t) : SameOutcome op.owner (exec digests op s) (exec digests op t) := by
  cases op with
  | applyPolicy ownerId change => exact (applyAuthoritativePolicy_congr h change).reply _
  | applyGrant ownerId change => exact (applyAuthoritativeGrant_congr h change).reply _
  | createRun ownerId request => exact (createRun_congr h request).reply _
  | retryRun ownerId request => exact (retryRun_congr h request).reply _
  | acquireLease ownerId runId version durationMs nowMs fence =>
    exact (acquireLease_congr h runId version durationMs nowMs fence).reply _
  | renewLease ownerId lease durationMs nowMs => exact (renewLease_congr h lease durationMs nowMs).reply _
  | commit ownerId commit nowMs => exact (commitExecution_congr h commit nowMs).reply _

/-- **Owner isolation**: on two states that agree on an owner's entries every call of the owner answers the same and
leaves them agreeing, and every read of the owner answers the same; and a call of an owner changes no entry of another. -/
theorem owner_isolation (digests : Digests) (cursorKey : BitVec 128) (ownerId : Uuid) (s t : State)
    (h : Agree ownerId s t) :
    (∀ op : Op, op.owner = ownerId → (exec digests op s).1 = (exec digests op t).1 ∧
      Agree ownerId (exec digests op s).2 (exec digests op t).2) ∧
    (∀ op : ReadOp, read digests cursorKey ownerId op s = read digests cursorKey ownerId op t) ∧
    ∀ op : Op, op.owner = ownerId → ∀ other, other ≠ ownerId → Agree other s (exec digests op s).2 := by
  refine ⟨?_, read_congr h cursorKey, ?_⟩
  · rintro op rfl
    exact exec_congr op h
  · rintro op rfl other hne
    exact exec_other digests op s hne

/-- The sample store with another owner's claim in it. -/
def Sample.shared : State :=
  { Sample.started with serialClaims := Sample.started.serialClaims.insert (9#128, Sample.sessionId) Sample.runId }

theorem started_isolated :
    Agree Sample.ownerId Sample.started Sample.shared ∧
      (exec Sample.digests (.renewLease Sample.ownerId Sample.lease 1000 20) Sample.started).1 =
        (exec Sample.digests (.renewLease Sample.ownerId Sample.lease 1000 20) Sample.shared).1 := by
  have hagree : Agree Sample.ownerId Sample.started Sample.shared :=
    { Agree.refl Sample.ownerId Sample.started with serialClaims := .insert_other (by decide) }
  exact ⟨hagree, ((owner_isolation Sample.digests 0 Sample.ownerId _ _ hagree).1 _ rfl).1⟩

end AnimaCore
