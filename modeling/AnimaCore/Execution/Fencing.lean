import AnimaCore.Execution.Transitions

/-!
# AnimaCore.Execution.Fencing — run versions and fences

Any number of workers acquire and renew leases on a run and commit to it, in any order and with any clock readings.
-/

namespace AnimaCore

open Lib

variable {digests : Digests} {s s' : State} {ownerId runId : Uuid} {op : Op} {commit : ExecutionCommit} {nowMs : ℕ}

/-! ## Versions -/

/-- The call is a freshly accepted commit on the run. -/
def commitsOn (digests : Digests) (ownerId runId : Uuid) (s : State) (op : Op) : Bool :=
  match op with
  | .commit owner commit nowMs =>
    owner == ownerId && commit.lease.runId == runId && freshlyAccepted digests s owner commit nowMs
  | _ => false

/-- How many commits of the calls are freshly accepted on the run. -/
def freshCommits (digests : Digests) (ownerId runId : Uuid) (ops : List Op) : ℕ :=
  countAlong (step digests) (commitsOn digests ownerId runId) State.empty ops

theorem commitsOn_iff :
    commitsOn digests ownerId runId s op = true ↔
      ∃ commit nowMs patch, op = .commit ownerId commit nowMs ∧ commit.lease.runId = runId ∧
        Committed digests s ownerId commit nowMs patch := by
  cases op with
  | commit owner c n =>
    simp only [commitsOn, Bool.and_eq_true, beq_iff_eq, freshlyAccepted_iff]
    constructor
    · rintro ⟨⟨rfl, rfl⟩, patch, hcom⟩
      exact ⟨c, n, patch, rfl, rfl, hcom⟩
    · rintro ⟨_, _, patch, ⟨⟩, rfl, hcom⟩
      exact ⟨⟨rfl, rfl⟩, patch, hcom⟩
  | _ => simp [commitsOn]

variable (digests) in
/-- What a step does to a stored run: a freshly accepted commit on it raises its version by one, and everything
else keeps it. -/
theorem storedRun_step {stored : StoredRun} (h : s.storedRun (ownerId, runId) = some stored) (op : Op) :
    ∃ after, (step digests s op).storedRun (ownerId, runId) = some after ∧
      after.runVersion = stored.runVersion + (commitsOn digests ownerId runId s op).toNat := by
  cases hon : commitsOn digests ownerId runId s op with
  | true =>
    obtain ⟨commit, nowMs, patch, rfl, rfl, hcom⟩ := commitsOn_iff.mp hon
    obtain ⟨b⟩ := buildCommitPatch_eq_ok hcom.built
    rw [storedRun_of_runs b.found] at h
    cases h
    rw [hcom.step_eq, b.storedRun_after, if_pos rfl]
    exact ⟨_, rfl, b.stored_runVersion⟩
  | false =>
    obtain hkept | ⟨commit, nowMs, patch, rfl, rfl, hcom⟩ := storedRun_step_cases digests h op
    · exact ⟨stored, hkept, rfl⟩
    · rw [commitsOn_iff.mpr ⟨_, _, _, rfl, rfl, hcom⟩] at hon
      cases hon

variable (digests) in
theorem storedRun_step_none (h : s.storedRun (ownerId, runId) = none) (op : Op) :
    commitsOn digests ownerId runId s op = false ∧
      ∀ after, (step digests s op).storedRun (ownerId, runId) = some after → after.runVersion = 1 := by
  have hoff : commitsOn digests ownerId runId s op = false := by
    rw [Bool.eq_false_iff]
    intro hon
    obtain ⟨commit, nowMs, patch, rfl, rfl, hcom⟩ := commitsOn_iff.mp hon
    obtain ⟨b⟩ := buildCommitPatch_eq_ok hcom.built
    rw [storedRun_of_runs b.found] at h
    cases h
  refine ⟨hoff, ?_⟩
  intro after hafter
  obtain hsame | hacc := step_cases digests s op
  · rw [hsame, h] at hafter
    cases hafter
  · generalize step digests s op = s' at hacc hafter
    cases hacc with
    | applyPolicy _ _ => cases h.symm.trans hafter
    | applyGrant _ _ => cases h.symm.trans hafter
    | createRun hc hst =>
      rw [storedRun_createdState] at hafter
      split_ifs at hafter with hkey
      · cases hafter
        rw [hst]
      · cases h.symm.trans hafter
    | retryRun hs _ hc =>
      rw [storedRun_writeRetryRun] at hafter
      split_ifs at hafter with hkey
      · cases hafter
        exact (checkRetryRun_eq_ok hs hc).stored_versions.1
      · cases h.symm.trans hafter
    | acquireLease _ =>
      rw [storedRun_setLease] at hafter
      cases h.symm.trans hafter
    | renewLease _ =>
      rw [storedRun_setLease] at hafter
      cases h.symm.trans hafter
    | commit hcom =>
      obtain ⟨b⟩ := buildCommitPatch_eq_ok hcom.built
      rw [b.storedRun_after] at hafter
      split_ifs at hafter with hkey
      · cases hkey
        rw [storedRun_of_runs b.found] at h
        cases h
      · cases h.symm.trans hafter

theorem runVersion_eq_count (digests : Digests) (ops : List Op) (ownerId runId : Uuid) :
    match (run (step digests) State.empty ops).storedRun (ownerId, runId) with
    | none => freshCommits digests ownerId runId ops = 0
    | some stored => stored.runVersion = 1 + freshCommits digests ownerId runId ops := by
  refine run_induction (step digests) State.empty
    (P := fun ops s => match s.storedRun (ownerId, runId) with
      | none => freshCommits digests ownerId runId ops = 0
      | some stored => stored.runVersion = 1 + freshCommits digests ownerId runId ops) ops ?_ ?_
  · simp [freshCommits, countAlong]
  · intro l op ih
    have hcount : freshCommits digests ownerId runId (l ++ [op]) = freshCommits digests ownerId runId l +
        (commitsOn digests ownerId runId (run (step digests) State.empty l) op).toNat := countAlong_concat ..
    rw [hcount]
    cases h : (run (step digests) State.empty l).storedRun (ownerId, runId) with
    | none =>
      rw [h] at ih
      obtain ⟨hoff, hone⟩ := storedRun_step_none digests h op
      rw [hoff]
      split
      · simpa using ih
      · next after hafter =>
        rw [hone after hafter]
        simp [ih]
    | some stored =>
      rw [h] at ih
      obtain ⟨after, hafter, hver⟩ := storedRun_step digests h op
      rw [hafter]
      dsimp only at ih ⊢
      omega

variable (digests) in
theorem runVersion_mono {stored : StoredRun} (ops : List Op) (h : s.storedRun (ownerId, runId) = some stored) :
    ∃ after, (run (step digests) s ops).storedRun (ownerId, runId) = some after ∧
      stored.runVersion ≤ after.runVersion := by
  refine run_induction (step digests) s (P := fun _ s => ∃ after,
    s.storedRun (ownerId, runId) = some after ∧ stored.runVersion ≤ after.runVersion) ops ⟨stored, h, le_rfl⟩ ?_
  rintro l op ⟨mid, hmid, hle⟩
  obtain ⟨after, hafter, hver⟩ := storedRun_step digests hmid op
  exact ⟨after, hafter, by omega⟩

theorem expectedRunVersion_ne {c₁ c₂ : ExecutionCommit} {n₁ n₂ : ℕ} (ops : List Op)
    (hrun : c₁.lease.runId = c₂.lease.runId) (h₁ : freshlyAccepted digests s ownerId c₁ n₁ = true)
    (h₂ : freshlyAccepted digests (run (step digests) s (.commit ownerId c₁ n₁ :: ops)) ownerId c₂ n₂ = true) :
    c₁.expectedRunVersion < c₂.expectedRunVersion := by
  obtain ⟨p₁, hc₁⟩ := freshlyAccepted_iff.mp h₁
  obtain ⟨p₂, hc₂⟩ := freshlyAccepted_iff.mp h₂
  obtain ⟨b₁⟩ := buildCommitPatch_eq_ok hc₁.built
  obtain ⟨b₂⟩ := buildCommitPatch_eq_ok hc₂.built
  have hafter : (step digests s (.commit ownerId c₁ n₁)).storedRun (ownerId, c₁.lease.runId) = some p₁.stored := by
    rw [hc₁.step_eq, b₁.storedRun_after, if_pos rfl]
  obtain ⟨after, hst, hle⟩ := runVersion_mono digests ops hafter
  have hsame : after = b₂.aggregate.stored :=
    Option.some.inj (hst.symm.trans (by rw [hrun]; exact storedRun_of_runs b₂.found))
  rw [hsame] at hle
  have hv₁ := b₁.header_eq.1
  have hv₂ := b₂.header_eq.1
  have hver := b₁.stored_runVersion
  omega

/-! ## Fences -/

def Op.drawnFence : Op → Option Uuid
  | .acquireLease _ _ _ _ _ fence => some fence
  | _ => none

def drawnFences (ops : List Op) : List Uuid := ops.filterMap Op.drawnFence

def State.leaseAt (s : State) (k : Uuid × Uuid) : Option ExecutionLease := s.runs[k]?.bind (·.lease)

theorem leaseAt_setLease {lease l : ExecutionLease} {k : Uuid × Uuid}
    (h : (s.setLease ownerId runId lease).leaseAt k = some l) : s.leaseAt k = some l ∨ l = lease := by
  simp only [State.leaseAt, runs_setLease] at h
  split_ifs at h with hk
  · obtain ⟨a, ha, hl⟩ := Option.bind_eq_some_iff.mp h
    obtain ⟨a', _, rfl⟩ := Option.map_eq_some_iff.mp ha
    exact .inr (Option.some.inj hl).symm
  · exact .inl h

theorem leaseAt_insert_fresh {stored : StoredRun} {key k : Uuid × Uuid} {l : ExecutionLease}
    (h : (s.runs.insert key (RunAggregate.fresh stored))[k]?.bind (·.lease) = some l) : s.leaseAt k = some l := by
  rw [Table.getElem?_insert_eq] at h
  split_ifs at h with hk
  · cases h
  · exact h

theorem leaseAt_step {l : ExecutionLease} {k : Uuid × Uuid} (h : (step digests s op).leaseAt k = some l) :
    (∃ before, s.leaseAt k = some before ∧ before.fence = l.fence) ∨ op.drawnFence = some l.fence := by
  obtain hsame | hacc := step_cases digests s op
  · rw [hsame] at h
    exact .inl ⟨l, h, rfl⟩
  · generalize step digests s op = s' at hacc h
    cases hacc with
    | applyPolicy _ _ => exact .inl ⟨l, h, rfl⟩
    | applyGrant _ _ => exact .inl ⟨l, h, rfl⟩
    | createRun _ _ => exact .inl ⟨l, leaseAt_insert_fresh h, rfl⟩
    | retryRun _ _ _ => exact .inl ⟨l, leaseAt_insert_fresh h, rfl⟩
    | acquireLease hg =>
      obtain ⟨_, _, _, hf⟩ := grantLease_eq_ok hg
      obtain hl | rfl := leaseAt_setLease h
      · exact .inl ⟨l, hl, rfl⟩
      · exact .inr (by simp [Op.drawnFence, hf])
    | renewLease he =>
      obtain ⟨⟨a, ha, hal⟩, _, hr, hf⟩ := extendLease_eq_ok he
      simp only [State.leaseAt, runs_setLease] at h
      split_ifs at h with hk
      · subst hk
        obtain ⟨a', ha', hl⟩ := Option.bind_eq_some_iff.mp h
        obtain ⟨a'', _, rfl⟩ := Option.map_eq_some_iff.mp ha'
        cases hl
        exact .inl ⟨_, by simp [State.leaseAt, ha, hal], hf.symm⟩
      · exact .inl ⟨l, h, rfl⟩
    | @commit _ commit _ _ hcom =>
      obtain ⟨b⟩ := buildCommitPatch_eq_ok hcom.built
      simp only [State.leaseAt, b.runs_after] at h
      split_ifs at h with hk
      · subst hk
        -- a commit keeps the lease or drops it
        have hl : nextLease b.aggregate commit = some l := by rw [← b.lease_eq]; exact h
        unfold nextLease at hl
        split_ifs at hl
        exact .inl ⟨l, by simp [State.leaseAt, b.found, hl], rfl⟩
      · exact .inl ⟨l, h, rfl⟩

theorem fence_of_run {fence : Uuid} {k : Uuid × Uuid} (ops : List Op)
    (h : ∀ l, s.leaseAt k = some l → l.fence = fence) {l : ExecutionLease}
    (hl : (run (step digests) s ops).leaseAt k = some l) : l.fence = fence ∨ l.fence ∈ drawnFences ops := by
  refine run_induction (step digests) s (P := fun ops s => ∀ l, s.leaseAt k = some l →
    l.fence = fence ∨ l.fence ∈ drawnFences ops) ops (fun l hl => .inl (h l hl)) ?_ l hl
  intro ops op ih l hl
  obtain ⟨before, hb, hf⟩ | hdrawn := leaseAt_step hl
  · rw [← hf]
    obtain hsame | hmem := ih before hb
    · exact .inl hsame
    · exact .inr (by simp [drawnFences, List.filterMap_append] at hmem ⊢; exact .inl hmem)
  · exact .inr (by simp [drawnFences, List.filterMap_append, hdrawn])

theorem leaseAt_of_acquired {version durationMs : ℕ} {fence : Uuid} {granted : ExecutionLease}
    (h : (acquireLease ownerId runId version durationMs nowMs fence s).1 = .ok granted) (l : ExecutionLease)
    (hl : (step digests s (.acquireLease ownerId runId version durationMs nowMs fence)).leaseAt (ownerId, runId) =
      some l) : l.fence = fence := by
  simp only [step, exec, reply, acquireLease] at h hl
  cases hg : grantLease ownerId runId version durationMs nowMs fence s with
  | error e => simp [hg] at h
  | ok lease =>
    obtain ⟨⟨a, ha, _⟩, _, _, hf⟩ := grantLease_eq_ok hg
    simp only [hg, State.leaseAt, runs_setLease, if_true, ha, Option.map_some, Option.bind_some] at hl
    cases hl
    exact hf

theorem renewLease_of_stale {lease : ExecutionLease} {durationMs : ℕ}
    (h : s.leaseAt (ownerId, lease.runId) ≠ some lease) :
    ∃ e, (renewLease ownerId lease durationMs nowMs s).1 = .error e := by
  unfold renewLease
  cases he : extendLease ownerId lease durationMs nowMs s with
  | error e => exact ⟨e, rfl⟩
  | ok renewed =>
    obtain ⟨⟨a, ha, hl⟩, _⟩ := extendLease_eq_ok he
    exact absurd (by simp [State.leaseAt, ha, hl]) h

/-- A commit under another lease than the current one is not freshly accepted: it changes nothing, and if it answers
at all, the answer is the stored outcome of its command. -/
theorem commit_of_stale (h : s.leaseAt (ownerId, commit.lease.runId) ≠ some commit.lease) :
    freshlyAccepted digests s ownerId commit nowMs = false ∧
      (commitExecution digests ownerId commit nowMs s).2 = s ∧
      ∀ outcome, (commitExecution digests ownerId commit nowMs s).1 = .ok outcome →
        s.receipts[(ownerId, commit.command.id)]?.isSome = true ∧
          s.outcomes[(ownerId, commit.command.id)]? = some outcome := by
  have hstale : freshlyAccepted digests s ownerId commit nowMs = false := by
    rw [Bool.eq_false_iff]
    intro hfresh
    obtain ⟨patch, hcom⟩ := freshlyAccepted_iff.mp hfresh
    obtain ⟨b⟩ := buildCommitPatch_eq_ok hcom.built
    exact h (by simp [State.leaseAt, b.found, b.header_eq.2.2.1.1])
  refine ⟨hstale, step_commit_of_not_fresh hstale, ?_⟩
  intro outcome hok
  cases hr : s.receipts[(ownerId, commit.command.id)]? with
  | none => simp [freshlyAccepted, hr, hok, Except.isOk, Except.toBool] at hstale
  | some receipt =>
    refine ⟨rfl, ?_⟩
    unfold commitExecution at hok
    cases hb : checkCommit digests commit with
    | error e => simp [hb] at hok
    | ok u =>
      simp only [hb, hr, replayCommit] at hok
      split at hok
      · cases hok
      · simpa using hok

/-- **Fencing and no lost update**, over every list of calls. -/
theorem fencing_no_lost_update (digests : Digests) (ops : List Op) (ownerId runId : Uuid) :
    (∀ a, (run (step digests) State.empty ops).runs[(ownerId, runId)]? = some a →
      a.stored.runVersion = 1 + freshCommits digests ownerId runId ops) ∧
    (∀ ops₁ ops₂ ops₃ c₁ c₂ n₁ n₂,
      ops = ops₁ ++ .commit ownerId c₁ n₁ :: (ops₂ ++ .commit ownerId c₂ n₂ :: ops₃) →
      c₁.lease.runId = runId → c₂.lease.runId = runId →
      freshlyAccepted digests (run (step digests) State.empty ops₁) ownerId c₁ n₁ = true →
      freshlyAccepted digests (run (step digests) State.empty (ops₁ ++ .commit ownerId c₁ n₁ :: ops₂))
        ownerId c₂ n₂ = true →
      c₁.expectedRunVersion ≠ c₂.expectedRunVersion) ∧
    ((drawnFences ops).Nodup → ∀ ops₁ ops₂ ops₃ v₁ d₁ n₁ f₁ v₂ d₂ n₂ f₂ lease₂,
      ops = ops₁ ++ .acquireLease ownerId runId v₁ d₁ n₁ f₁ ::
        (ops₂ ++ .acquireLease ownerId runId v₂ d₂ n₂ f₂ :: ops₃) →
      (acquireLease ownerId runId v₂ d₂ n₂ f₂ (run (step digests) State.empty
        (ops₁ ++ .acquireLease ownerId runId v₁ d₁ n₁ f₁ :: ops₂))).1 = .ok lease₂ →
      (∀ lease durationMs nowMs, lease.runId = runId → lease.fence = f₁ →
        ∃ e, (renewLease ownerId lease durationMs nowMs (run (step digests) State.empty ops)).1 = .error e) ∧
      ∀ commit nowMs, commit.lease.runId = runId → commit.lease.fence = f₁ →
        freshlyAccepted digests (run (step digests) State.empty ops) ownerId commit nowMs = false ∧
          (commitExecution digests ownerId commit nowMs (run (step digests) State.empty ops)).2 =
            run (step digests) State.empty ops ∧
          ∀ outcome, (commitExecution digests ownerId commit nowMs (run (step digests) State.empty ops)).1 =
              .ok outcome →
            (run (step digests) State.empty ops).receipts[(ownerId, commit.command.id)]?.isSome = true ∧
              (run (step digests) State.empty ops).outcomes[(ownerId, commit.command.id)]? = some outcome) := by
  refine ⟨?_, ?_, ?_⟩
  · intro a ha
    have hcount := runVersion_eq_count digests ops ownerId runId
    rw [storedRun_of_runs ha] at hcount
    exact hcount
  · intro ops₁ ops₂ ops₃ c₁ c₂ n₁ n₂ _ hr₁ hr₂ hf₁ hf₂
    rw [run_append] at hf₂
    exact (expectedRunVersion_ne ops₂ (hr₁.trans hr₂.symm) hf₁ hf₂).ne
  · intro hnodup ops₁ ops₂ ops₃ v₁ d₁ n₁ f₁ v₂ d₂ n₂ f₂ lease₂ hops hacq
    -- every lease of the run now has the second fence, or one drawn later
    have hlater : ∀ l, (run (step digests) State.empty ops).leaseAt (ownerId, runId) = some l → l.fence ≠ f₁ := by
      intro l hl
      simp only [hops, run_append, run_cons] at hl hacq
      have hfence := fence_of_run ops₃ (leaseAt_of_acquired hacq) hl
      rw [hops] at hnodup
      simp only [drawnFences, List.filterMap_append, List.filterMap_cons, Op.drawnFence] at hnodup hfence
      have hmid := (List.nodup_append.mp hnodup).2.1
      rw [List.nodup_cons, List.mem_append, List.mem_cons, not_or, not_or] at hmid
      obtain ⟨⟨_, hne, hnotin⟩, _⟩ := hmid
      rintro rfl
      obtain hsame | hmem := hfence
      · exact hne hsame
      · exact hnotin hmem
    refine ⟨?_, ?_⟩
    · rintro lease durationMs nowMs rfl hfence
      exact renewLease_of_stale fun hl => hlater lease hl hfence
    · rintro commit nowMs rfl hfence
      exact commit_of_stale fun hl => hlater commit.lease hl hfence

end AnimaCore
