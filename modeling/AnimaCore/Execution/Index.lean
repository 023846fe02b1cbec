import AnimaCore.Execution.Grants
import AnimaCore.Execution.Receipts
import AnimaCore.Execution.Sessions
import AnimaCore.Execution.Snapshot

/-!
# AnimaCore.Execution.Index — policies, command records and consumptions

What ties the tables beside the runs to the runs and to each other, in every reached state.

* `PoliciesKeyed`: policies are stored under their own keys.
* `ConsumptionsOnce`: consumption keys are well formed, and no two of them differ only in the authority, if every commit
  consumes for an invocation that has not consumed at that revision (`consumesOnce`).
-/

namespace AnimaCore

open Lib

variable {digests : Digests} {s s' : State} {ownerId runId : Uuid} {op : Op} {commit : ExecutionCommit} {nowMs : ℕ}
  {patch : CommitPatch}

/-! ## Policies -/

def PoliciesKeyed (s : State) : Prop :=
  ∀ (k : Uuid × String × ℕ) p, s.authoritativePolicies[k]? = some p → p.tableKey = k

theorem policyChange_key {change : AuthoritativePolicyChange} {current : Option AuthoritativePolicyState}
    {next : AuthoritativePolicyState} (h : change.applyTo current = .ok next) : next.key = change.key := by
  unfold AuthoritativePolicyChange.applyTo at h
  split at h
  · cases h
    rfl
  · split_ifs at h
    cases h
    rfl
  · split_ifs at h with hc
    cases h
    exact Prod.ext hc.1 hc.2.1
  · cases h

theorem policiesKeyed_of_accepted (h : PoliciesKeyed s) (hacc : Accepted digests s op s') : PoliciesKeyed s' := by
  cases hacc with
  | applyPolicy happlied howned =>
    intro k p hk
    rw [Table.getElem?_insert_eq] at hk
    split_ifs at hk with heq
    · cases hk
      have hkey := policyChange_key happlied
      rw [← heq, ← hkey, ← howned]
      rfl
    · exact h k p hk
  | applyGrant _ _ => exact h
  | createRun _ _ => exact h
  | retryRun _ _ _ => exact h
  | acquireLease _ => exact h
  | renewLease _ => exact h
  | commit _ => exact h

theorem policiesKeyed_of_reaches {allowed : State → Op → Prop} (h : Reaches (step digests) allowed State.empty s) :
    PoliciesKeyed s := by
  refine invariant_of_accepted h ?_ fun _ _ _ _ hp _ hacc => policiesKeyed_of_accepted hp hacc
  intro k p hk
  simp [State.empty] at hk

/-! ## Versions -/

/-- The run is in the same session, and no version went back. -/
structure Advances (a a' : RunAggregate) : Prop where
  session : a'.stored.run.sessionId = a.stored.run.sessionId
  runVersion : a.stored.runVersion ≤ a'.stored.runVersion
  sessionVersion : a.stored.sessionVersion ≤ a'.stored.sessionVersion
  checkpointVersion : a.checkpointVersion ≤ a'.checkpointVersion

theorem nextCheckpointVersion_le {aggregate : RunAggregate} {version : ℕ}
    (h : nextCheckpointVersion aggregate commit = .ok version) : aggregate.checkpointVersion ≤ version := by
  unfold nextCheckpointVersion at h
  split at h
  · cases h
    exact le_rfl
  · simp only [okOr_eq_ok, checkedAdd_eq_some] at h
    omega
  · split_ifs at h
    · simp only [okOr_eq_ok, checkedAdd_eq_some] at h
      omega
    · cases h
      exact le_rfl

theorem Built.advances (b : Built digests s ownerId commit nowMs patch) (hs : SessionsBound s) :
    Advances b.aggregate (b.aggregate.patched patch) := by
  obtain ⟨session, hsession, _, _, hle⟩ := hs.bound _ _ _ (storedRun_of_runs b.found)
  rw [b.session_eq] at hsession
  cases hsession
  refine ⟨?_, ?_, ?_, nextCheckpointVersion_le b.checkpointVersion_eq⟩
  · rw [RunAggregate.patched_stored, b.stored_run, b.same_run.2.1]
  · rw [RunAggregate.patched_stored, b.stored_runVersion]
    exact Nat.le_succ _
  · rw [RunAggregate.patched_stored]
    obtain ⟨_, _, hv⟩ | ⟨_, _, hv⟩ := b.session_cases
    · rw [hv]
      omega
    · exact hv.ge

theorem Accepted.advances (hacc : Accepted digests s op s') (hs : SessionsBound s) {k : Uuid × Uuid} {a : RunAggregate}
    (ha : s.runs[k]? = some a) : ∃ a', s'.runs[k]? = some a' ∧ Advances a a' := by
  obtain hsame | ⟨lease, hnew⟩ | ⟨_, _, _, _, b, rfl, _, _, _, hnew⟩ := hacc.run_cases ha
  · exact ⟨a, hsame, rfl, le_rfl, le_rfl, le_rfl⟩
  · exact ⟨_, hnew, rfl, le_rfl, le_rfl, le_rfl⟩
  · exact ⟨_, hnew, b.advances hs⟩

/-! ## Command records -/

/-- The record of a command names a stored run that is not older. -/
structure Linked (digests : Digests) (s : State) (k : Uuid × Uuid) (index : CommandIndexRecord)
    (outcome : ExecutionCommitOutcome) : Prop where
  owner : isNil k.1 = false ∧ outcome.storedRun.ownerId = k.1
  ids : isNil k.2 = false ∧ isNil index.sessionId = false ∧ isNil index.runId = false ∧
    isNil index.payloadDigest = false
  run : index.runId = outcome.storedRun.run.id ∧ index.sessionId = outcome.storedRun.run.sessionId
  stored : ∃ a, s.runs[(k.1, outcome.storedRun.run.id)]? = some a ∧
    outcome.storedRun.run.sessionId = a.stored.run.sessionId ∧ outcome.storedRun.runVersion ≤ a.stored.runVersion ∧
    outcome.storedRun.sessionVersion ≤ a.stored.sessionVersion ∧ outcome.checkpointVersion ≤ a.checkpointVersion
  consumed : ∀ c, outcome.grantConsumption = some c → spentKey digests k.1 c ∈ s.grantConsumptions

theorem Linked.of_accepted {k : Uuid × Uuid} {index : CommandIndexRecord} {outcome : ExecutionCommitOutcome}
    (h : Linked digests s k index outcome) (hs : SessionsBound s) (hacc : Accepted digests s op s') :
    Linked digests s' k index outcome := by
  obtain ⟨a, ha, hsid, hrv, hsv, hcv⟩ := h.stored
  obtain ⟨a', ha', hadv⟩ := hacc.advances hs ha
  exact ⟨h.owner, h.ids, h.run, ⟨a', ha', hsid.trans hadv.session.symm, hrv.trans hadv.runVersion,
    hsv.trans hadv.sessionVersion, hcv.trans hadv.checkpointVersion⟩, fun c hc => keys_grow hacc (h.consumed c hc)⟩

def RecordsLinked (digests : Digests) (s : State) : Prop :=
  ∀ (k : Uuid × Uuid) index outcome, s.commands[k]? = some index → s.outcomes[k]? = some outcome →
    Linked digests s k index outcome

theorem payloadDigest_ne_nil (command : RuntimeCommand) : isNil (command.payloadDigest digests) = false :=
  uuidV5_ne_nil _

theorem StoredRun.owner_ne_nil (stored : StoredRun) : isNil stored.ownerId = false := by
  have h := stored.valid
  simp only [StoredRunWire.validate, bind_eq_ok, ensure_eq_ok] at h
  obtain ⟨_, ⟨ho, _⟩, _⟩ := h
  exact ho

theorem Built.linked (b : Built digests s ownerId commit nowMs patch)
    (hcom : Committed digests s ownerId commit nowMs patch) :
    Linked digests (applyCommitPatch s ownerId commit.lease.runId patch patch.outcome) (ownerId, patch.receipt.commandId)
      patch.commandIndex patch.outcome := by
  obtain ⟨hid, hsid, hrid⟩ := commit.command.valid_facts
  obtain ⟨htarget, hrun⟩ := hcom.run_eq
  have hstored : patch.outcome.storedRun.run = commit.targetRun := b.stored_run
  have howner : patch.outcome.storedRun.ownerId = ownerId := b.stored_owner
  refine ⟨⟨?_, howner⟩, ⟨?_, ?_, ?_, ?_⟩, ⟨?_, ?_⟩, ⟨b.aggregate.patched patch, ?_, rfl, le_rfl, le_rfl, le_rfl⟩, ?_⟩
  · rw [← howner]
    exact patch.outcome.storedRun.owner_ne_nil
  · rw [b.receipt_eq]
    exact hid
  · rw [b.commandIndex_eq]
    exact hsid
  · rw [b.commandIndex_eq]
    exact hrid
  · rw [b.commandIndex_eq]
    exact payloadDigest_ne_nil _
  · rw [b.commandIndex_eq, hstored, hrun]
    exact htarget
  · rw [b.commandIndex_eq, hstored, ← b.same_run.2.1]
    exact b.same_run.2.2.2.2.1
  · rw [b.runs_after, if_pos]
    rw [hstored, hrun]
  · intro c hc
    have hreported : reportedConsumption commit = some c := b.patchGrants_eq.2.2.symm.trans hc
    obtain ⟨hnone, _⟩ | ⟨c', hc', _, _, _, _, hspent⟩ := patchGrants_cases b.grants_eq
    · rw [hnone] at hreported
      cases hreported
    · rw [hc'] at hreported
      cases hreported
      simp only [applyCommitPatch, b.patchGrants_eq.2.1, hspent]
      exact KeySet.mem_insert_iff.mpr (.inl rfl)

theorem recordsLinked_of_accepted (h : RecordsLinked digests s) (hs : SessionsBound s)
    (hkeyed : ∀ (ownerId runId : Uuid) (a : RunAggregate), s.runs[(ownerId, runId)]? = some a →
      a.stored.run.id = runId ∧ a.stored.ownerId = ownerId)
    (hacc : Accepted digests s op s') : RecordsLinked digests s' := by
  intro k index outcome hi ho
  have hold : s.commands[k]? = some index → s.outcomes[k]? = some outcome → Linked digests s' k index outcome :=
    fun hi ho => (h k index outcome hi ho).of_accepted hs hacc
  cases hacc with
  | applyPolicy _ _ => exact hold hi ho
  | applyGrant _ _ => exact hold hi ho
  | createRun _ _ => exact hold hi ho
  | acquireLease _ => exact hold hi ho
  | renewLease _ => exact hold hi ho
  | @retryRun ownerId request source command session stored hsource hu hc =>
    simp only [writeRetryRun, Table.getElem?_insert_eq] at hi ho
    split_ifs at hi ho with hkey
    · cases hi
      cases ho
      subst hkey
      have hchecked := checkRetryRun_eq_ok hsource hc
      obtain ⟨hid, howner⟩ := hkeyed _ _ _ hchecked.found
      refine ⟨⟨hchecked.owner_valid, howner⟩, ⟨request.valid.1, source.stored.run.sessionId_ne_nil, request.valid.2.1,
        payloadDigest_ne_nil _⟩, ⟨hid.symm, rfl⟩, ⟨source, ?_, rfl, le_rfl, le_rfl, le_rfl⟩, by rintro _ ⟨⟩⟩
      simp only [writeRetryRun, Table.getElem?_insert_eq]
      rw [if_neg, hid]
      · exact hchecked.found
      · intro heq
        exact request.valid.2.2.2 (hid.symm.trans (Prod.mk.inj heq).2.symm)
    · exact hold hi ho
  | @commit ownerId commit nowMs patch hcom =>
    obtain ⟨b⟩ := buildCommitPatch_eq_ok hcom.built
    simp only [applyCommitPatch, Table.getElem?_insert_eq] at hi ho
    split_ifs at hi ho with hkey
    · cases hi
      cases ho
      subst hkey
      exact b.linked hcom
    · exact hold hi ho

theorem recordsLinked_of_reaches {allowed : State → Op → Prop} (h : Reaches (step digests) allowed State.empty s) :
    RecordsLinked digests s := by
  refine invariant_of_accepted h ?_ ?_
  · intro k index outcome hi
    simp [State.empty] at hi
  · intro s op s' hr hp _ hacc
    exact recordsLinked_of_accepted hp (sessionsBound_of_reaches hr) (fun _ _ _ ha => (run_keyed hr ha).symm) hacc

/-! ## Consumptions -/

theorem reportedConsumption_valid {c : GrantConsumption} (h : reportedConsumption commit = some c) :
    c.validate = .ok () := by
  unfold reportedConsumption at h
  split at h
  · next hsome =>
    cases h
    obtain ⟨approval, _, hc⟩ := Option.bind_eq_some_iff.mp hsome
    obtain ⟨snapshot, hs, rfl⟩ := Option.map_eq_some_iff.mp hc
    exact approval.claim.consumption_valid _ hs
  · obtain ⟨dispatch, _, rfl⟩ := Option.map_eq_some_iff.mp h
    exact dispatch.consumption_valid

/-- The calls whose commits consume for an invocation that has not consumed at that revision. -/
def consumesOnce (s : State) (op : Op) : Prop :=
  match op with
  | .commit ownerId commit _ => ∀ c, reportedConsumption commit = some c →
      ∀ key ∈ s.grantConsumptions, consumptionMatches ownerId c key = false
  | _ => True

/-- Consumption keys are well formed, and no two of them differ only in the authority. -/
structure ConsumptionsOnce (s : State) : Prop where
  formed : ∀ key ∈ s.grantConsumptions, checkSnapshotConsumption key = .ok ()
  once : ∀ c ownerId, ∀ key ∈ s.grantConsumptions, ∀ key' ∈ s.grantConsumptions,
    consumptionMatches ownerId c key = true → consumptionMatches ownerId c key' = true → key = key'

theorem GrantAuthorityKey.asStr_ne_empty (key : GrantAuthorityKey) : key.asStr ≠ "" := by
  intro h
  have hv := key.valid
  rw [h] at hv
  revert hv
  decide

theorem checkSnapshotConsumption_spentKey {c : GrantConsumption} (h : c.validate = .ok ()) :
    checkSnapshotConsumption (spentKey digests ownerId c) = .ok () := by
  obtain ⟨hr, hi⟩ := GrantConsumption.validate_eq_ok h
  exact ensure_eq_ok.mpr ⟨GrantAuthorityKey.asStr_ne_empty _, hr, hi⟩

theorem consumptionMatches_iff {c : GrantConsumption} {key : ConsumptionKey} :
    consumptionMatches ownerId c key = true ↔
      key.1 = ownerId ∧ key.2.2.1 = c.grantRevision ∧ key.2.2.2 = c.logicalInvocationId := by
  simp [consumptionMatches, and_assoc]

theorem consumptionMatches_spentKey (c : GrantConsumption) :
    consumptionMatches ownerId c (spentKey digests ownerId c) = true :=
  consumptionMatches_iff.mpr ⟨rfl, rfl, rfl⟩

theorem consumptionsOnce_of_accepted (h : ConsumptionsOnce s) (honce : consumesOnce s op)
    (hacc : Accepted digests s op s') : ConsumptionsOnce s' := by
  cases hacc.grantStep with
  | keep _ hkeys => exact ⟨by rw [hkeys]; exact h.formed, by rw [hkeys]; exact h.once⟩
  | change _ _ _ hkeys => exact ⟨by rw [hkeys]; exact h.formed, by rw [hkeys]; exact h.once⟩
  | @spend ownerId commit nowMs left c _ hreported _ _ hkeys =>
    -- a stored key that matches what the new one matches would match the commit's consumption
    have hnew : ∀ c' ownerId', consumptionMatches ownerId' c' (spentKey digests ownerId c) = true →
        ∀ key ∈ s.grantConsumptions, consumptionMatches ownerId' c' key = false := by
      intro c' ownerId' hm key hkey
      rw [consumptionMatches_iff] at hm
      obtain ⟨rfl, hr, hi⟩ := hm
      have hfree := honce c hreported key hkey
      rw [Bool.eq_false_iff, ne_eq, consumptionMatches_iff] at hfree ⊢
      rintro ⟨ho', hr', hi'⟩
      exact hfree ⟨ho', hr'.trans hr.symm, hi'.trans hi.symm⟩
    constructor
    · intro key hkey
      rw [hkeys, KeySet.mem_insert_iff] at hkey
      obtain rfl | hkey := hkey
      · exact checkSnapshotConsumption_spentKey (reportedConsumption_valid hreported)
      · exact h.formed key hkey
    · intro c' ownerId' key hkey key' hkey' hm hm'
      rw [hkeys, KeySet.mem_insert_iff] at hkey hkey'
      obtain rfl | hkey := hkey <;> obtain rfl | hkey' := hkey'
      · rfl
      · rw [hnew c' ownerId' hm key' hkey'] at hm'
        cases hm'
      · rw [hnew c' ownerId' hm' key hkey] at hm
        cases hm
      · exact h.once c' ownerId' key hkey key' hkey' hm hm'

theorem consumptionsOnce_of_reaches (h : Reaches (step digests) consumesOnce State.empty s) : ConsumptionsOnce s := by
  refine invariant_of_accepted h ⟨?_, ?_⟩ fun _ _ _ _ hp hal hacc => consumptionsOnce_of_accepted hp hal hacc
  · intro key hkey
    simp [State.empty] at hkey
  · intro _ _ key hkey
    simp [State.empty] at hkey

end AnimaCore
