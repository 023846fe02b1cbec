import AnimaCore.Execution.History

/-!
# AnimaCore.Execution.Dispatch — live dispatches and their authority

* `OpenAlone`: beside an open attempt, all attempts of its invocation are uncertain.  The lineage check of the source
  keeps it for new dispatches; new pending and completed attempts are not checked, and keep it if the commit adds them
  in lineage (`AddsInLineage`).  Then a completed invocation is never dispatched again (`one_live_dispatch`).
-/

namespace AnimaCore

open Lib

variable {digests : Digests} {s : State} {ownerId runId : Uuid} {commit : ExecutionCommit} {nowMs : ℕ}
  {patch : CommitPatch} {aggregate : RunAggregate}

/-! ## Policy guards -/

theorem mem_dispatchingAttempts {attempts : List InvocationAttemptRecord} {r : InvocationAttemptRecord} :
    r ∈ dispatchingAttempts attempts ↔ r ∈ attempts ∧ r.state = .dispatching := by
  simp [dispatchingAttempts]

structure Guarded (s : State) (ownerId : Uuid) (commit : ExecutionCommit) (nowMs : ℕ)
    (attempt : InvocationAttemptRecord) (guard : DispatchPolicyGuard) (authority : AuthoritativePolicyState) : Prop where
  only : dispatchingAttempts commit.attempts = [attempt]
  guard_eq : commit.policyGuard = some guard
  bound : guard.matchesAttempt ownerId attempt = true
  found : s.authoritativePolicies[(ownerId, guard.agentDefinitionId, guard.agentDefinitionVersion)]? = some authority
  valid : authority.validates guard nowMs = true

theorem Built.guard_cases (b : Built digests s ownerId commit nowMs patch) :
    dispatchingAttempts commit.attempts = [] ∨
      ∃ attempt guard authority, Guarded s ownerId commit nowMs attempt guard authority := by
  have h := b.guard
  unfold checkPolicyGuard at h
  split at h
  · next attempt guard hd hg =>
    split_ifs at h with hm
    simp only [bind_eq_ok, ensure_eq_ok, okOr_eq_ok] at h
    obtain ⟨authority, hfound, hvalid⟩ := h
    exact .inr ⟨attempt, guard, authority, hd, hg, hm, hfound, hvalid⟩
  · next hd _ => exact .inl hd
  · cases h

theorem Guarded.authority_eq {attempt : InvocationAttemptRecord} {guard : DispatchPolicyGuard}
    {authority : AuthoritativePolicyState} (h : Guarded s ownerId commit nowMs attempt guard authority) :
    authority.status = .active ∧ authority.revision = guard.policyRevision ∧
      ∀ u, authority.validUntilMs = some u → nowMs < u := by
  have hv := h.valid
  simp only [AuthoritativePolicyState.validates, Bool.and_eq_true, beq_iff_eq] at hv
  obtain ⟨⟨⟨_, hrev⟩, hactive⟩, huntil⟩ := hv
  refine ⟨hactive, hrev, ?_⟩
  intro u hu
  simpa [hu] using huntil

theorem Built.guarded_of_dispatching (b : Built digests s ownerId commit nowMs patch) {r : InvocationAttemptRecord}
    (hmem : r ∈ commit.attempts) (hstate : r.state = .dispatching) :
    ∃ guard authority, Guarded s ownerId commit nowMs r guard authority := by
  have hin := mem_dispatchingAttempts.mpr ⟨hmem, hstate⟩
  obtain hnone | ⟨attempt, guard, authority, hg⟩ := b.guard_cases
  · rw [hnone] at hin
    cases hin
  · rw [hg.only, List.mem_singleton] at hin
    subst hin
    exact ⟨guard, authority, hg⟩

/-- The guard of the commit names the definition of the run it is committed on. -/
def GuardsOwnDefinition (s : State) (ownerId : Uuid) (commit : ExecutionCommit) : Prop :=
  ∀ a guard, s.runs[(ownerId, commit.lease.runId)]? = some a → commit.policyGuard = some guard →
    guard.agentDefinitionId = a.stored.run.definitionId ∧ guard.agentDefinitionVersion = a.stored.run.definitionVersion

/-- The owner's policy for the run's own definition is active, unexpired and at the revision of the commit's guard. -/
def OwnPolicyCurrent (s : State) (ownerId : Uuid) (commit : ExecutionCommit) (nowMs : ℕ) : Prop :=
  ∃ a guard policy, s.runs[(ownerId, commit.lease.runId)]? = some a ∧ commit.policyGuard = some guard ∧
    s.authoritativePolicies[(ownerId, a.stored.run.definitionId, a.stored.run.definitionVersion)]? = some policy ∧
    policy.status = .active ∧ (∀ u, policy.validUntilMs = some u → nowMs < u) ∧
    policy.revision = guard.policyRevision

theorem Guarded.ownPolicy (b : Built digests s ownerId commit nowMs patch) {attempt : InvocationAttemptRecord}
    {guard : DispatchPolicyGuard} {authority : AuthoritativePolicyState}
    (h : Guarded s ownerId commit nowMs attempt guard authority) (hown : GuardsOwnDefinition s ownerId commit) :
    OwnPolicyCurrent s ownerId commit nowMs := by
  obtain ⟨hid, hversion⟩ := hown b.aggregate guard b.found h.guard_eq
  obtain ⟨hactive, hrev, huntil⟩ := h.authority_eq
  refine ⟨b.aggregate, guard, authority, b.found, h.guard_eq, ?_, hactive, huntil, hrev⟩
  rw [← hid, ← hversion]
  exact h.found

/-- **Dispatch is authorised by the run's own policy**, for commits whose guard names the run's own definition. -/
theorem dispatch_authorised (digests : Digests) (s : State) (ownerId : Uuid) (commit : ExecutionCommit) (nowMs : ℕ)
    (hfresh : freshlyAccepted digests s ownerId commit nowMs = true)
    (hown : GuardsOwnDefinition s ownerId commit) :
    ((∃ r ∈ commit.attempts, r.state = .dispatching) → OwnPolicyCurrent s ownerId commit nowMs) ∧
    ∀ (run : Uuid × Uuid) (k : AttemptKey) (r : InvocationAttemptRecord) (a a' : RunAggregate),
      s.runs[run]? = some a → (step digests s (.commit ownerId commit nowMs)).runs[run]? = some a' →
      a'.attempts[k]? = some r → r.state = .dispatching → a.attempts[k]? ≠ some r →
      run = (ownerId, commit.lease.runId) ∧ r ∈ commit.attempts ∧ OwnPolicyCurrent s ownerId commit nowMs := by
  obtain ⟨patch, hcom⟩ := freshlyAccepted_iff.mp hfresh
  obtain ⟨b⟩ := buildCommitPatch_eq_ok hcom.built
  refine ⟨?_, ?_⟩
  · rintro ⟨r, hmem, hstate⟩
    obtain ⟨guard, authority, hg⟩ := b.guarded_of_dispatching hmem hstate
    exact hg.ownPolicy b hown
  · intro run k r a a' ha ha' hk hstate hchanged
    rw [hcom.step_eq, b.runs_after] at ha'
    split_ifs at ha' with hkey
    · cases ha'
      subst hkey
      obtain ⟨hold, _⟩ | ⟨hmem, _⟩ := b.attempt_cases hk
      · rw [b.found] at ha
        cases ha
        exact absurd hold hchanged
      · obtain ⟨guard, authority, hg⟩ := b.guarded_of_dispatching hmem hstate
        exact ⟨rfl, hmem, hg.ownPolicy b hown⟩
    · rw [ha] at ha'
      cases ha'
      exact absurd hk hchanged

theorem sample_dispatch_authorised :
    OwnPolicyCurrent (run (step Sample.digests) Sample.started [Sample.installPolicy "def-a"]) Sample.ownerId
      (Sample.dispatch "def-a") 20 := by
  have hown : GuardsOwnDefinition (run (step Sample.digests) Sample.started [Sample.installPolicy "def-a"])
      Sample.ownerId (Sample.dispatch "def-a") := by
    have hrun : ((run (step Sample.digests) Sample.started [Sample.installPolicy "def-a"]).runs[(Sample.ownerId,
        Sample.runId)]?.all fun a => a.stored.run.definitionId == "def-a" && a.stored.run.definitionVersion == 1) =
        true := by decide +kernel
    have hguard : ((Sample.guard "def-a").all fun guard => guard.agentDefinitionId == "def-a" &&
        guard.agentDefinitionVersion == 1) = true := by decide +kernel
    intro a guard ha hg
    have h₁ := (Option.all_eq_true _ _).mp hrun a ha
    have h₂ := (Option.all_eq_true _ _).mp hguard guard hg
    simp only [Bool.and_eq_true, beq_iff_eq] at h₁ h₂
    exact ⟨h₂.1.trans h₁.1.symm, h₂.2.trans h₁.2.symm⟩
  exact (dispatch_authorised Sample.digests _ _ _ 20 (by decide +kernel) hown).1
    ⟨Sample.attempt 1 .dispatching, by simp [Sample.dispatch], rfl⟩

/-- A dispatch is accepted under the policy of another definition. -/
theorem foreign_policy_dispatches :
    ¬∀ (digests : Digests) (s : State), Reaches (step digests) anyInput State.empty s →
      ∀ (ownerId : Uuid) (commit : ExecutionCommit) (nowMs : ℕ), freshlyAccepted digests s ownerId commit nowMs = true →
        (∃ r ∈ commit.attempts, r.state = .dispatching) → OwnPolicyCurrent s ownerId commit nowMs := by
  intro h
  have hreach : Reaches (step Sample.digests) anyInput State.empty
      (run (step Sample.digests) Sample.started [Sample.installPolicy "def-b"]) :=
    (reaches_run _).trans (reaches_run _)
  obtain ⟨a, guard, policy, ha, _, hpolicy, _⟩ := h Sample.digests _ hreach Sample.ownerId (Sample.dispatch "def-b") 20
    (by decide +kernel) ⟨Sample.attempt 1 .dispatching, by simp [Sample.dispatch], rfl⟩
  have hnone : ((run (step Sample.digests) Sample.started [Sample.installPolicy "def-b"]).runs[(Sample.ownerId,
      Sample.runId)]?.all fun a => (run (step Sample.digests) Sample.started
        [Sample.installPolicy "def-b"]).authoritativePolicies[(Sample.ownerId, a.stored.run.definitionId,
          a.stored.run.definitionVersion)]?.isNone) = true := by decide +kernel
  have hnone := (Option.all_eq_true _ _).mp hnone a ha
  rw [hpolicy] at hnone
  cases hnone

/-! ## Live dispatches -/

/-- The attempt is running, or it may still be started. -/
def InvocationAttemptRecord.isOpen (r : InvocationAttemptRecord) : Prop := r.state = .pending ∨ r.state = .dispatching

/-- Beside an open attempt, all attempts of its invocation are uncertain. -/
def OpenAlone (a : RunAggregate) : Prop :=
  ∀ (id : Uuid) (n n' : ℕ) (r r' : InvocationAttemptRecord), a.attempts[(id, n)]? = some r →
    a.attempts[(id, n')]? = some r' → r.isOpen → r'.state ≠ .uncertain → n = n'

/-- One of the attempts is open and the other is not uncertain. -/
def Clash (r r' : InvocationAttemptRecord) : Prop :=
  (r.isOpen ∧ r'.state ≠ .uncertain) ∨ (r'.isOpen ∧ r.state ≠ .uncertain)

/-- A new pending or completed attempt of the commit clashes with no other attempt of its invocation: with none that
the commit lists, and with no stored one that the commit leaves as it is. -/
def AddsInLineage (a : RunAggregate) (commit : ExecutionCommit) : Prop :=
  ∀ r ∈ commit.attempts, a.attempts[r.key]? = none → r.state = .pending ∨ r.state = .completed →
    ∀ r' : InvocationAttemptRecord, r'.invocation.id = r.invocation.id → r'.key ≠ r.key →
      (r' ∈ commit.attempts ∨
        (a.attempts[r'.key]? = some r' ∧ ∀ q ∈ commit.attempts, q.key = r'.key → q = r')) → ¬Clash r r'

/-- The calls whose commits add attempts in lineage. -/
def inLineage (s : State) (op : Op) : Prop :=
  match op with
  | .commit ownerId commit _ => ∀ a, s.runs[(ownerId, commit.lease.runId)]? = some a → AddsInLineage a commit
  | _ => True

theorem legalAttemptTransition_open {existing r : InvocationAttemptRecord}
    (h : legalAttemptTransition existing r = true) :
    existing.isOpen ∧ existing.state ≠ .uncertain ∧ (r.isOpen → r.state = .dispatching) := by
  obtain ⟨⟨he, hr⟩ | ⟨he, hr⟩, _⟩ := legalAttemptTransition_eq_true h
  · refine ⟨.inr he, by simp [he], ?_⟩
    rintro (ho | ho)
    · rw [ho] at hr
      simp at hr
    · exact ho
  · exact ⟨.inl he, by simp [he], fun _ => hr⟩

namespace Built

theorem dispatching_unique (b : Built digests s ownerId commit nowMs patch) {r r' : InvocationAttemptRecord}
    (hr : r ∈ commit.attempts) (hr' : r' ∈ commit.attempts) (hd : r.state = .dispatching)
    (hd' : r'.state = .dispatching) : r = r' := by
  obtain ⟨_, _, hg⟩ := b.guarded_of_dispatching hr hd
  have hin := mem_dispatchingAttempts.mpr ⟨hr', hd'⟩
  rw [hg.only, List.mem_singleton] at hin
  exact hin.symm

theorem lineage_of_new (b : Built digests s ownerId commit nowMs patch) (hopen : OpenAlone b.aggregate)
    {id : Uuid} {n n' m : ℕ} {r e : InvocationAttemptRecord} (hp : b.attempts.patches[(id, n)]? = some (m, r))
    (hnew : b.aggregate.attempts[(id, n)]? = none) (hd : r.state = .dispatching)
    (he : b.aggregate.attempts[(id, n')]? = some e) (hne : e.state ≠ .uncertain) :
    ∃ m' q, b.attempts.patches[(id, n')]? = some (m', q) ∧ q.state = .uncertain := by
  obtain ⟨_, hkey⟩ := b.attemptLoop.patched _ _ _ hp
  have hid : r.invocation.id = id := congrArg Prod.fst hkey
  have h := b.lineage ((id, n), m, r) (Table.mem_toList.mpr hp)
  have hguard : ¬(r.state ≠ .dispatching ∨ (id, n) ∈ b.aggregate.attempts) := by
    rw [Table.mem_iff_getElem?_isSome, hnew]
    simp [hd]
  simp only [checkDispatchLineage, if_neg hguard, hid] at h
  cases hprior : priorDispatch b.aggregate id with
  | none =>
    -- then the invocation has no stored attempt at all
    simp only [hprior, ensure_eq_ok, List.all_eq_true] at h
    have hout := h.2 (id, n') (Std.ExtTreeMap.mem_keys.mpr (Table.mem_of_getElem? he))
    simp at hout
  | some entry =>
    obtain ⟨⟨pid, pn⟩, prior⟩ := entry
    simp only [hprior, bind_eq_ok, okOr_eq_ok, ensure_eq_ok] at h
    obtain ⟨_, _, _, _, _, _, hpatched⟩ := h
    have hfound := List.find?_some hprior
    simp only [Bool.and_eq_true, beq_iff_eq] at hfound
    obtain ⟨rfl, hpd⟩ := hfound
    have hstored := Table.mem_toList.mp (List.mem_of_find?_eq_some hprior)
    -- the stored dispatch is the only attempt that is not uncertain
    obtain rfl := hopen _ _ _ _ _ hstored he (.inr hpd) hne
    obtain ⟨⟨m', q⟩, hq, hu⟩ := (Option.any_eq_true ..).mp hpatched
    simp only [Bool.and_eq_true, beq_iff_eq] at hu
    exact ⟨m', q, hq, hu.1.1.1⟩

theorem listed_or_kept (b : Built digests s ownerId commit nowMs patch)
    (hk : HistoryKeyed commit.lease.runId b.aggregate) {k : AttemptKey} {q : InvocationAttemptRecord}
    (hq : (b.aggregate.patched patch).attempts[k]? = some q) :
    q.key = k ∧ (q ∈ commit.attempts ∨
      (b.aggregate.attempts[q.key]? = some q ∧ ∀ p ∈ commit.attempts, p.key = q.key → p = q)) := by
  obtain ⟨hold, hnone⟩ | ⟨hmem, hkey, _⟩ := b.attempt_cases hq
  · obtain ⟨rfl, _⟩ := hk.attempts k q hold
    refine ⟨rfl, .inr ⟨hold, ?_⟩⟩
    intro p hp hpk
    have hsame := b.attemptLoop.kept p hp (hpk ▸ hnone)
    rw [hpk, hold] at hsame
    exact (Option.some.inj hsame).symm
  · exact ⟨hkey, .inl hmem⟩

theorem new_no_clash (b : Built digests s ownerId commit nowMs patch)
    (hk : HistoryKeyed commit.lease.runId b.aggregate) (hopen : OpenAlone b.aggregate)
    (hadd : AddsInLineage b.aggregate commit) {id : Uuid} {n n' m : ℕ} {r q : InvocationAttemptRecord}
    (hnew : b.aggregate.attempts[(id, n)]? = none) (hp : b.attempts.patches[(id, n)]? = some (m, r))
    (hq : (b.aggregate.patched patch).attempts[(id, n')]? = some q) (hne : n ≠ n') : ¬Clash r q := by
  obtain ⟨hmem, hkey⟩ := b.attemptLoop.patched _ _ _ hp
  obtain ⟨hqkey, hqin⟩ := b.listed_or_kept hk hq
  have hid : q.invocation.id = r.invocation.id :=
    (congrArg Prod.fst hqkey).trans (congrArg Prod.fst hkey).symm
  have hkeys : q.key ≠ r.key := by
    rw [hqkey, hkey]
    exact fun h => hne (congrArg Prod.snd h).symm
  intro hclash
  cases hstate : r.state with
  | pending => exact hadd r hmem (hkey ▸ hnew) (.inl hstate) q hid hkeys hqin hclash
  | completed => exact hadd r hmem (hkey ▸ hnew) (.inr hstate) q hid hkeys hqin hclash
  | uncertain => simp [Clash, InvocationAttemptRecord.isOpen, hstate] at hclash
  | dispatching =>
    have hqu : q.state ≠ .uncertain := by
      rcases hclash with ⟨_, h⟩ | ⟨h | h, _⟩
      · exact h
      · simp [h]
      · simp [h]
    obtain ⟨hold, hnone⟩ | ⟨hqmem, _, ⟨m', hqp⟩, hqnew | ⟨e, he, hlegal⟩⟩ := b.attempt_cases hq
    · obtain ⟨_, _, hturned, _⟩ := b.lineage_of_new hopen hp hnew hstate hold hqu
      rw [hnone] at hturned
      cases hturned
    · -- both are new: only one of them is dispatching
      cases hqstate : q.state with
      | uncertain => exact hqu hqstate
      | dispatching => exact hkeys (congrArg InvocationAttemptRecord.key (b.dispatching_unique hqmem hmem hqstate hstate))
      | pending =>
        exact hadd q hqmem (hqkey ▸ hqnew) (.inl hqstate) r hid.symm hkeys.symm (.inl hmem) hclash.symm
      | completed =>
        exact hadd q hqmem (hqkey ▸ hqnew) (.inr hqstate) r hid.symm hkeys.symm (.inl hmem) hclash.symm
    · obtain ⟨_, _, hturned, hu⟩ :=
        b.lineage_of_new hopen hp hnew hstate he (legalAttemptTransition_open hlegal).2.1
      rw [hqp] at hturned
      cases hturned
      exact hqu hu

end Built

theorem openAlone_commit (b : Built digests s ownerId commit nowMs patch)
    (hk : HistoryKeyed commit.lease.runId b.aggregate) (hopen : OpenAlone b.aggregate)
    (hadd : AddsInLineage b.aggregate commit) : OpenAlone (b.aggregate.patched patch) := by
  intro id n n' r r' hr hr' ho hu
  by_contra hne
  obtain ⟨hold, _⟩ | ⟨_, _, ⟨m, hp⟩, hnew | ⟨e, he, hlegal⟩⟩ := b.attempt_cases hr
  · obtain ⟨hold', _⟩ | ⟨_, _, ⟨m', hp'⟩, hnew' | ⟨e', he', hlegal'⟩⟩ := b.attempt_cases hr'
    · exact hne (hopen id n n' r r' hold hold' ho hu)
    · exact b.new_no_clash hk hopen hadd hnew' hp' hr (Ne.symm hne) (.inr ⟨ho, hu⟩)
    · exact hne (hopen id n n' r e' hold he' ho (legalAttemptTransition_open hlegal').2.1)
  · exact b.new_no_clash hk hopen hadd hnew hp hr' hne (.inl ⟨ho, hu⟩)
  · obtain ⟨hold', _⟩ | ⟨_, _, ⟨m', hp'⟩, hnew' | ⟨e', he', hlegal'⟩⟩ := b.attempt_cases hr'
    · exact hne (hopen id n n' e r' he hold' (legalAttemptTransition_open hlegal).1 hu)
    · exact b.new_no_clash hk hopen hadd hnew' hp' hr (Ne.symm hne) (.inr ⟨ho, hu⟩)
    · exact hne (hopen id n n' e e' he he' (legalAttemptTransition_open hlegal).1
        (legalAttemptTransition_open hlegal').2.1)

theorem openAlone_of_reaches (h : Reaches (step digests) inLineage State.empty s) {a : RunAggregate}
    (ha : s.runs[(ownerId, runId)]? = some a) : OpenAlone a := by
  refine runs_invariant (P := fun _ _ a => OpenAlone a) h ?_ (fun _ _ _ _ hk _ _ => hk) ?_ ha
  · intro _ _ stored _ _ _ _ id n n' r r' hr
    simp [RunAggregate.fresh] at hr
  · intro s ownerId commit nowMs patch b hr hal _ hopen
    exact openAlone_commit b (historyKeyed_of_reaches hr b.found) hopen (hal _ b.found)

theorem results_kept {allowed : State → Op → Prop} {s' : State} (h : Reaches (step digests) allowed s s')
    {k : Uuid × Uuid} {a : RunAggregate} {id : Uuid} (ha : s.runs[k]? = some a) (hid : id ∈ a.results) :
    ∃ a', s'.runs[k]? = some a' ∧ id ∈ a'.results := by
  refine run_kept (P := fun a => id ∈ a.results) h (fun _ _ hin => hin) ?_ ha hid
  intro s ownerId commit nowMs patch b hin
  rw [b.results_after, Table.mem_iff_getElem?_isSome, Table.getElem?_overlay]
  cases b.results.patches[id]? with
  | none => exact Table.mem_iff_getElem?_isSome.mp hin
  | some _ => rfl

/-- **One live dispatch**, in every run whose commits add pending and completed attempts in lineage: an invocation has
at most one dispatching attempt, and none in any later state once it has a durable result. -/
theorem one_live_dispatch (digests : Digests) (s : State) (h : Reaches (step digests) inLineage State.empty s)
    (ownerId runId : Uuid) (a : RunAggregate) (ha : s.runs[(ownerId, runId)]? = some a) (id : Uuid) :
    (∀ (n n' : ℕ) (r r' : InvocationAttemptRecord), a.attempts[(id, n)]? = some r →
      a.attempts[(id, n')]? = some r' → r.state = .dispatching → r'.state = .dispatching → n = n') ∧
    (id ∈ a.results → ∀ (s' : State) (a' : RunAggregate), Reaches (step digests) inLineage s s' →
      s'.runs[(ownerId, runId)]? = some a' → ∀ (n : ℕ) (r : InvocationAttemptRecord),
        a'.attempts[(id, n)]? = some r → r.state ≠ .dispatching) := by
  refine ⟨?_, ?_⟩
  · intro n n' r r' hr hr' hd hd'
    exact openAlone_of_reaches h ha id n n' r r' hr hr' (.inr hd) (by simp [hd'])
  · intro hid s' a' hs' ha' n r hr hd
    have hreach := h.trans hs'
    obtain ⟨_, hsame, hin⟩ := results_kept hs' ha hid
    rw [ha'] at hsame
    cases hsame
    -- the result completes an attempt, so the invocation has no open one
    obtain ⟨stored, hstored⟩ := Option.isSome_iff_exists.mp (Table.mem_iff_getElem?_isSome.mp hin)
    obtain ⟨_, _, attempt, hattempt, hcompletes⟩ := (historyKeyed_of_reaches hreach ha').results id stored hstored
    obtain rfl := openAlone_of_reaches hreach ha' id _ _ r attempt hr hattempt (.inr hd) (by simp [hcompletes.2.1])
    rw [hr] at hattempt
    cases hattempt
    rw [hcompletes.2.1] at hd
    cases hd

theorem sample_one_live_dispatch :
    ∃ a, Sample.dispatched.runs[(Sample.ownerId, Sample.runId)]? = some a ∧
      ∀ (n : ℕ) (r : InvocationAttemptRecord), a.attempts[(Sample.invocation.id, n)]? = some r → r.state = .dispatching →
        n = 1 := by
  have hstart : inLineage (run (step Sample.digests) State.empty [Sample.createRun, Sample.acquireLease])
      (.commit Sample.ownerId Sample.start 10) := by
    intro a _ r hr
    simp [Sample.start, Sample.commit] at hr
  have hdispatch : inLineage (run (step Sample.digests) Sample.started [Sample.installPolicy "def-a"])
      (.commit Sample.ownerId (Sample.dispatch "def-a") 20) := by
    intro a _ r hr _ hstate
    simp only [Sample.dispatch, List.mem_singleton] at hr
    subst hr
    simp [Sample.attempt] at hstate
  have hreach : Reaches (step Sample.digests) inLineage State.empty Sample.dispatched :=
    ((((Reaches.start.next Sample.createRun trivial).next Sample.acquireLease trivial).next _ hstart).next
      (Sample.installPolicy "def-a") trivial).next _ hdispatch
  have hone : (Sample.dispatched.runs[(Sample.ownerId, Sample.runId)]?.any fun a =>
      a.attempts[(Sample.invocation.id, 1)]? == some (Sample.attempt 1 .dispatching)) = true := by decide +kernel
  obtain ⟨a, ha, hone⟩ := (Option.any_eq_true _ _).mp hone
  refine ⟨a, ha, fun n r hr hd => ?_⟩
  exact (one_live_dispatch Sample.digests _ hreach _ _ a ha Sample.invocation.id).1 n 1 r _ hr (beq_iff_eq.mp hone) hd rfl

/-- An attempt is dispatched after the invocation has its result. -/
theorem dispatch_after_result :
    ¬∀ (digests : Digests) (s : State), Reaches (step digests) anyInput State.empty s →
      ∀ (ownerId runId : Uuid) (a : RunAggregate), s.runs[(ownerId, runId)]? = some a → ∀ id ∈ a.results,
        ∀ (s' : State) (a' : RunAggregate), Reaches (step digests) anyInput s s' → s'.runs[(ownerId, runId)]? = some a' →
          ∀ (n : ℕ) (r : InvocationAttemptRecord), a'.attempts[(id, n)]? = some r → r.state ≠ .dispatching := by
  intro h
  have hheld : ((run (step Sample.digests) Sample.dispatched [.commit Sample.ownerId Sample.progress 30]).runs[(
      Sample.ownerId, Sample.runId)]?.any fun a => decide (Sample.invocation.id ∈ a.results)) = true := by decide +kernel
  have hlive : ((run (step Sample.digests) (run (step Sample.digests) Sample.dispatched [.commit Sample.ownerId
      Sample.progress 30]) [.commit Sample.ownerId Sample.redispatch 40]).runs[(Sample.ownerId, Sample.runId)]?.any fun a =>
        a.attempts[(Sample.invocation.id, 2)]? == some (Sample.attempt 2 .dispatching)) = true := by decide +kernel
  obtain ⟨a, ha, hheld⟩ := (Option.any_eq_true _ _).mp hheld
  obtain ⟨a', ha', hlive⟩ := (Option.any_eq_true _ _).mp hlive
  have hreach := (@reaches_run _ _ (step Sample.digests) State.empty _).trans
    ((reaches_run _).trans (reaches_run (s := Sample.dispatched) [.commit Sample.ownerId Sample.progress 30]))
  exact h Sample.digests _ hreach _ _ a ha _ (of_decide_eq_true hheld) _ a'
    (reaches_run _) ha' 2 _ (beq_iff_eq.mp hlive) rfl

end AnimaCore
