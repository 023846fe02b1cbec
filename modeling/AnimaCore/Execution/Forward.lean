import AnimaCore.Execution.History

/-!
# AnimaCore.Execution.Forward — the history of a run only moves forward

A commit may list one attempt several times, and each listing overrides the one before; `legalAttemptTransition` compares
each of them with the stored record, so the record after the commit is one legal step from the one before it.

* `AttemptRecordState.Next`: the steps `Pending → Dispatching → Completed | Uncertain`.
* `Onward r a`: what is known of a stored record `r` in a later aggregate `a` of its run.
-/

namespace AnimaCore

open Lib Relation

variable {digests : Digests} {s : State} {ownerId runId : Uuid} {commit : ExecutionCommit} {nowMs : ℕ}
  {patch : CommitPatch}

inductive AttemptRecordState.Next : AttemptRecordState → AttemptRecordState → Prop
  | dispatch : Next .pending .dispatching
  | complete : Next .dispatching .completed
  | giveUp : Next .dispatching .uncertain

def AttemptRecordState.isFinal (state : AttemptRecordState) : Prop := state = .completed ∨ state = .uncertain

theorem legalAttemptTransition_next {r r' : InvocationAttemptRecord} (h : legalAttemptTransition r r' = true) :
    AttemptRecordState.Next r.state r'.state ∧ r.invocation = r'.invocation ∧ r.manifest = r'.manifest ∧
      r.recoveryMode = r'.recoveryMode := by
  obtain ⟨hstate, hsame⟩ := legalAttemptTransition_eq_true h
  refine ⟨?_, hsame⟩
  rcases hstate with ⟨hd, hc | hu⟩ | ⟨hp, hd⟩
  · rw [hd, hc]
    exact .complete
  · rw [hd, hu]
    exact .giveUp
  · rw [hp, hd]
    exact .dispatch

theorem AttemptRecordState.Next.not_final {x y : AttemptRecordState} (h : Next x y) : ¬x.isFinal := by
  rintro (rfl | rfl) <;> cases h

namespace Built

theorem completed_result (b : Built digests s ownerId commit nowMs patch) {k : AttemptKey}
    {r r' : InvocationAttemptRecord} (hr : b.aggregate.attempts[k]? = some r)
    (hr' : (b.aggregate.patched patch).attempts[k]? = some r') (hne : r.state ≠ .completed)
    (hc : r'.state = .completed) :
    ∃ stored, (b.aggregate.patched patch).results[r'.invocation.id]? = some stored ∧ stored.completed.key = r'.key := by
  obtain ⟨hold, _⟩ | ⟨_, _, ⟨n, hp⟩, _⟩ := b.attempt_cases hr'
  · rw [hr] at hold
    cases hold
    exact absurd hc hne
  · -- the key is one of the transitions that the result block backs
    have hkey : k ∈ b.attempts.transitionKeys := by
      rw [b.attemptLoop.keys]
      exact ⟨Table.mem_of_getElem? hp, Table.mem_of_getElem? hr⟩
    have hcheck := b.transitions k (Std.ExtTreeSet.mem_toList.mpr hkey)
    simp only [checkAttemptTransition, hp, Option.map_some, bind_eq_ok, okOr_eq_ok, Option.some.injEq] at hcheck
    obtain ⟨_, rfl, hcheck⟩ := hcheck
    simp only [hc, ensure_eq_ok] at hcheck
    obtain ⟨stored, hstored, hmatch⟩ := (Option.any_eq_true _ _).mp hcheck
    simp only [Bool.and_eq_true, decide_eq_true_eq, beq_iff_eq] at hmatch
    obtain ⟨⟨⟨hinv, hnumber⟩, _⟩, _⟩ := hmatch
    refine ⟨stored, ?_, ?_⟩
    · rw [b.results_after, Table.getElem?_overlay, hstored]
      rfl
    · rw [CompletedInvocationRecord.key, InvocationAttemptRecord.key, hinv, hnumber]

theorem result_kept (b : Built digests s ownerId commit nowMs patch) {id : Uuid} {stored : StoredDurableResult}
    (h : b.aggregate.results[id]? = some stored) : (b.aggregate.patched patch).results[id]? = some stored := by
  rw [b.results_after, Table.getElem?_overlay]
  cases hp : b.results.patches[id]? with
  | none => exact h
  | some new => exact absurd (Table.mem_of_getElem? h) (b.resultLoop.patched id new hp).1

theorem step_kept (b : Built digests s ownerId commit nowMs patch) {id : String} {step : Step}
    (h : b.aggregate.steps[id]? = some step) : (b.aggregate.patched patch).steps[id]? = some step := by
  rw [b.steps_after, Table.getElem?_overlay]
  cases hp : b.steps.patches[id]? with
  | none => exact h
  | some new => exact absurd (Table.mem_of_getElem? h) (b.stepLoop.patched id new.1 new.2 hp).2.2

end Built

/-- The record that was stored as `r`, in a later aggregate of its run. -/
structure Onward (r : InvocationAttemptRecord) (a : RunAggregate) (r' : InvocationAttemptRecord) : Prop where
  found : a.attempts[r.key]? = some r'
  invocation : r'.invocation = r.invocation
  manifest : r'.manifest = r.manifest
  recoveryMode : r'.recoveryMode = r.recoveryMode
  forward : ReflTransGen AttemptRecordState.Next r.state r'.state
  final : r.state.isFinal → r' = r
  completed : r.state ≠ .completed → r'.state = .completed →
    ∃ stored, a.results[r.invocation.id]? = some stored ∧ stored.completed.key = r.key

theorem onward_commit (b : Built digests s ownerId commit nowMs patch) {r r' : InvocationAttemptRecord}
    (h : Onward r b.aggregate r') : ∃ r'', Onward r (b.aggregate.patched patch) r'' := by
  obtain ⟨r'', hafter, rfl | hlegal⟩ := b.attempt_kept h.found
  · refine ⟨r'', hafter, h.invocation, h.manifest, h.recoveryMode, h.forward, h.final, ?_⟩
    intro hne hc
    obtain ⟨stored, hstored, hkey⟩ := h.completed hne hc
    exact ⟨stored, b.result_kept hstored, hkey⟩
  · obtain ⟨hnext, hinv, hman, hmode⟩ := legalAttemptTransition_next hlegal
    have hbinding : r''.invocation = r.invocation := hinv.symm.trans h.invocation
    refine ⟨r'', hafter, hbinding, hman.symm.trans h.manifest, hmode.symm.trans h.recoveryMode,
      h.forward.tail hnext, ?_, ?_⟩
    · intro hf
      rw [h.final hf] at hnext
      exact absurd hf hnext.not_final
    · intro _ hc
      have hopen : r'.state ≠ .completed := fun hstate => hnext.not_final (.inl hstate)
      obtain ⟨stored, hstored, hkey⟩ := b.completed_result h.found hafter hopen hc
      have hsame : r''.key = r.key := by
        obtain ⟨_, hp⟩ | ⟨_, hkey, _⟩ := b.attempt_cases hafter
        · have hkept : (b.aggregate.patched patch).attempts[r.key]? = some r' := by
            rw [b.attempts_after, Table.getElem?_overlay, hp]
            exact h.found
          rw [hafter] at hkept
          cases hkept
          exact absurd hc hopen
        · exact hkey
      exact ⟨stored, by rw [← hbinding]; exact hstored, hkey.trans hsame⟩

/-- **The history of a run only moves forward**, along every sequence of calls: a stored attempt keeps its binding, its
manifest and its recovery mode, its state follows `Pending → Dispatching → Completed | Uncertain`, and a completed or
uncertain one is not touched again; stored steps and results stay; every result belongs to a completed attempt of its
manifest and schema digest; and an attempt that was completed in place has a result. -/
theorem history_moves_forward (digests : Digests) (s : State) (h : Reaches (step digests) anyInput State.empty s)
    (ops : List Op) (ownerId runId : Uuid) (a : RunAggregate) (ha : s.runs[(ownerId, runId)]? = some a) :
    ∃ a', (run (step digests) s ops).runs[(ownerId, runId)]? = some a' ∧
      (∀ (k : AttemptKey) (r : InvocationAttemptRecord), a.attempts[k]? = some r →
        ∃ r', a'.attempts[k]? = some r' ∧ r'.invocation = r.invocation ∧ r'.manifest = r.manifest ∧
          r'.recoveryMode = r.recoveryMode ∧ ReflTransGen AttemptRecordState.Next r.state r'.state ∧
          (r.state.isFinal → r' = r) ∧
          (r.state = .dispatching ∨ r.state = .pending → r'.state = .completed →
            ∃ stored, a'.results[k.1]? = some stored ∧ stored.completed.key = k)) ∧
      (∀ (id : String) (step : Step), a.steps[id]? = some step → a'.steps[id]? = some step) ∧
      (∀ (id : Uuid) (stored : StoredDurableResult), a.results[id]? = some stored → a'.results[id]? = some stored) ∧
      ∀ (id : Uuid) (stored : StoredDurableResult), a'.results[id]? = some stored →
        ∃ r : InvocationAttemptRecord, a'.attempts[(id, stored.completed.attemptNumber)]? = some r ∧
          r.state = .completed ∧ r.invocation = stored.completed.invocation ∧ r.manifest = stored.completed.manifest ∧
          stored.result.schemaDigest = r.manifest.schemaDigest := by
  have hrun := @reaches_run _ _ (step digests) s ops
  obtain ⟨a', ha', -⟩ := run_kept (P := fun _ => True) hrun (fun _ _ _ => trivial) (fun _ _ _ _ _ _ _ => trivial) ha trivial
  -- what a run keeps is kept by the aggregate at its end
  have hkept : ∀ {P : RunAggregate → Prop}, (∀ a lease, P a → P { a with lease := some lease }) →
      (∀ s ownerId commit nowMs patch (b : Built digests s ownerId commit nowMs patch),
        P b.aggregate → P (b.aggregate.patched patch)) → P a → P a' := by
    intro P hlease hcommit hp
    obtain ⟨_, hsame, hp'⟩ := run_kept hrun hlease hcommit ha hp
    rw [ha'] at hsame
    cases hsame
    exact hp'
  have hkeyed := historyKeyed_of_reaches h ha
  have hkeyed' := historyKeyed_of_reaches (h.trans hrun) ha'
  refine ⟨a', ha', ?_, ?_, ?_, ?_⟩
  · intro k r hr
    obtain ⟨hkey, _⟩ := hkeyed.attempts k r hr
    obtain ⟨r', hon⟩ := hkept (P := fun a => ∃ r', Onward r a r')
      (fun _ _ ⟨r', hon⟩ => ⟨r', hon.found, hon.invocation, hon.manifest, hon.recoveryMode, hon.forward, hon.final,
        hon.completed⟩)
      (fun _ _ _ _ _ b ⟨_, hon⟩ => onward_commit b hon)
      ⟨r, by rwa [hkey], rfl, rfl, rfl, .refl, fun _ => rfl, fun hne hc => absurd hc hne⟩
    refine ⟨r', by rw [← hkey]; exact hon.found, hon.invocation, hon.manifest, hon.recoveryMode, hon.forward, hon.final, ?_⟩
    rintro hopen hc
    have hne : r.state ≠ .completed := by rcases hopen with hopen | hopen <;> simp [hopen]
    obtain ⟨stored, hstored, hskey⟩ := hon.completed hne hc
    refine ⟨stored, ?_, hskey.trans hkey⟩
    rw [← hkey]
    exact hstored
  · intro id step hstep
    exact hkept (P := fun a => a.steps[id]? = some step) (fun _ _ hp => hp) (fun _ _ _ _ _ b hp => b.step_kept hp) hstep
  · intro id stored hstored
    exact hkept (P := fun a => a.results[id]? = some stored) (fun _ _ hp => hp)
      (fun _ _ _ _ _ b hp => b.result_kept hp) hstored
  · intro id stored hstored
    obtain ⟨_, _, r, hr, hinv, hstate, hman, _, hdigest, _⟩ := hkeyed'.results id stored hstored
    exact ⟨r, hr, hstate, hinv, hman, hdigest⟩

/-- The first attempt of the sample run is completed with its result. -/
def Sample.finish : ExecutionCommit :=
  { Sample.commit 3 (Sample.command 105#128 (.recordProgress Sample.runId)) Sample.running with
    attempts := [Sample.attempt 1 .completed Sample.first_bound]
    results := [{ completed := Sample.completed 1 Sample.first_bound, result := Sample.result }] }

theorem sample_history_forward :
    ∃ a', (run (step Sample.digests) Sample.dispatched [.commit Sample.ownerId Sample.finish 30]).runs[(Sample.ownerId,
        Sample.runId)]? = some a' ∧
      ∃ r' : InvocationAttemptRecord, a'.attempts[(Sample.invocation.id, 1)]? = some r' ∧
        ReflTransGen AttemptRecordState.Next .dispatching r'.state := by
  have hrun : (Sample.dispatched.runs[(Sample.ownerId, Sample.runId)]?.any fun a =>
      a.attempts[(Sample.invocation.id, 1)]? == some (Sample.attempt 1 .dispatching)) = true := by decide +kernel
  obtain ⟨a, ha, hr⟩ := (Option.any_eq_true _ _).mp hrun
  obtain ⟨a', ha', hattempts, _⟩ := history_moves_forward Sample.digests Sample.dispatched
    ((reaches_run _).trans (reaches_run _)) [.commit Sample.ownerId Sample.finish 30] Sample.ownerId Sample.runId a ha
  obtain ⟨r', hr', _, _, _, hforward, _⟩ := hattempts _ _ (beq_iff_eq.mp hr)
  exact ⟨a', ha', r', hr', hforward⟩

end AnimaCore
