import AnimaCore.Execution.Transitions
import AnimaCore.Lib.Sequence
import AnimaCore.Lib.Xor

/-!
# AnimaCore.Execution.History — the step, attempt and result loops of a commit

What the three loops of `build_commit_patch` leave in a run's history.

* `AttemptStep`: one attempt of a commit is already there, changes a stored record in place, or is new.
* `AttemptLoop`, `StepLoop`, `ResultLoop`: the invariants of the loops, by the part of the commit already read;
  `Built.attemptLoop`, `Built.stepLoop`, `Built.resultLoop` give them for the whole commit.
* `HistoryKeyed`: in every reached state, records are stored under their own keys and belong to the run.
-/

namespace AnimaCore

open Lib

variable {digests : Digests} {s : State} {ownerId runId : Uuid} {commit : ExecutionCommit} {nowMs : ℕ}
  {patch : CommitPatch} {aggregate : RunAggregate}

/-! ## Attempts -/

inductive AttemptStep (digests : Digests) (aggregate : RunAggregate) (acc : AttemptPatches)
    (attempt : InvocationAttemptRecord) : AttemptPatches → Prop
  /-- It is stored, or it was listed before. -/
  | listed (known : aggregate.attempts[attempt.key]? = some attempt ∨
      (aggregate.attempts[attempt.key]? = none ∧ ∃ n, acc.patches[attempt.key]? = some (n, attempt))) :
      AttemptStep digests aggregate acc attempt acc
  /-- It changes the stored record. -/
  | moved {existing : InvocationAttemptRecord} {n : ℕ} {d d' : HistoryFingerprint}
      (stored : aggregate.attempts[attempt.key]? = some existing) (ne : existing ≠ attempt)
      (legal : legalAttemptTransition existing attempt = true)
      (placed : findSequence aggregate.attemptOrder attempt.key = some n)
      (old : digests.attempt existing = some d) (new : digests.attempt attempt = some d') :
      AttemptStep digests aggregate acc attempt
        { acc with patches := acc.patches.insert attempt.key (n, attempt)
                   transitionKeys := acc.transitionKeys.insert attempt.key
                   fingerprint := acc.fingerprint ^^^ d ^^^ d' }
  /-- It is new. -/
  | added {d : HistoryFingerprint} (unstored : aggregate.attempts[attempt.key]? = none)
      (unlisted : acc.patches[attempt.key]? = none) (new : digests.attempt attempt = some d)
      (fits : acc.nextSequence + 1 < 2 ^ 64) :
      AttemptStep digests aggregate acc attempt
        { acc with patches := acc.patches.insert attempt.key (acc.nextSequence, attempt)
                   newAttemptCount := acc.newAttemptCount + 1, nextSequence := acc.nextSequence + 1
                   fingerprint := acc.fingerprint ^^^ d }

theorem attemptPatchStep_eq_ok {acc acc' : AttemptPatches} {attempt : InvocationAttemptRecord}
    (h : attemptPatchStep digests runId aggregate acc attempt = .ok acc') :
    attempt.invocation.runId = runId ∧ AttemptStep digests aggregate acc attempt acc' := by
  simp only [attemptPatchStep, bind_eq_ok, ensure_eq_ok] at h
  obtain ⟨_, hrun, h⟩ := h
  refine ⟨hrun, ?_⟩
  cases hs : aggregate.attempts[attempt.key]? with
  | some existing =>
    simp only [hs] at h
    split_ifs at h with heq hlegal
    · cases h
      exact .listed (.inl (heq ▸ hs))
    · simp only [bind_eq_ok, okOr_eq_ok, toStore_eq_ok, HistoryFingerprint.includeValue_eq_ok] at h
      obtain ⟨n, hn, _, ⟨d, hd, rfl⟩, _, ⟨d', hd', rfl⟩, h⟩ := h
      cases h
      exact .moved hs heq hlegal hn hd hd'
  | none =>
    simp only [hs] at h
    cases hp : acc.patches[attempt.key]? with
    | some entry =>
      obtain ⟨n, existing⟩ := entry
      simp only [hp] at h
      split_ifs at h with heq
      cases h
      exact .listed (.inr ⟨hs, n, heq ▸ hp⟩)
    | none =>
      simp only [hp, bind_eq_ok, okOr_eq_ok, toStore_eq_ok, HistoryFingerprint.includeValue_eq_ok,
        checkedAdd_eq_some] at h
      obtain ⟨_, ⟨hfits, rfl⟩, _, ⟨d, hd, rfl⟩, _, ⟨_, rfl⟩, h⟩ := h
      cases h
      exact .added hs hp hd hfits

structure AttemptLoop (runId : Uuid) (aggregate : RunAggregate) (read : List InvocationAttemptRecord)
    (acc : AttemptPatches) : Prop where
  inRun : ∀ r ∈ read, r.invocation.runId = runId
  kept : ∀ r ∈ read, acc.patches[r.key]? = none → aggregate.attempts[r.key]? = some r
  patched : ∀ (k : AttemptKey) n r, acc.patches[k]? = some (n, r) → r ∈ read ∧ r.key = k
  moved : ∀ (k : AttemptKey) n r existing, acc.patches[k]? = some (n, r) → aggregate.attempts[k]? = some existing →
    legalAttemptTransition existing r = true ∧ findSequence aggregate.attemptOrder k = some n
  keys : ∀ k, k ∈ acc.transitionKeys ↔ k ∈ acc.patches ∧ k ∈ aggregate.attempts
  numbered : Numbered (· ∉ aggregate.attempts) acc.patches aggregate.nextAttemptSequence acc.nextSequence
  size : (Table.overlay aggregate.attempts acc.patches (·.2)).size = aggregate.attempts.size + acc.newAttemptCount
  fits : acc.nextSequence = aggregate.nextAttemptSequence ∨ acc.nextSequence < 2 ^ 64
  idle : acc.patches.isEmpty = true → acc.fingerprint = aggregate.attemptsFingerprint

theorem AttemptLoop.start : AttemptLoop runId aggregate []
    { patches := ∅, transitionKeys := ∅, newAttemptCount := 0, nextSequence := aggregate.nextAttemptSequence
      fingerprint := aggregate.attemptsFingerprint } := by
  refine ⟨by simp, by simp, ?_, ?_, by simp, .empty, by simp [Table.overlay_empty], .inl rfl, fun _ => rfl⟩
  · intro k n r h
    simp at h
  · intro k n r existing h
    simp at h

theorem AttemptLoop.write_patched {read : List InvocationAttemptRecord} {acc : AttemptPatches}
    (h : AttemptLoop runId aggregate read acc) {attempt : InvocationAttemptRecord} {n : ℕ} (k : AttemptKey) (m : ℕ)
    (r : InvocationAttemptRecord) (hk : (acc.patches.insert attempt.key (n, attempt))[k]? = some (m, r)) :
    (r ∈ read ++ [attempt] ∧ r.key = k) := by
  rw [Table.getElem?_insert_eq] at hk
  split_ifs at hk with heq
  · cases hk
    exact ⟨by simp, heq⟩
  · obtain ⟨hmem, hkey⟩ := h.patched k m r hk
    exact ⟨by simp [hmem], hkey⟩

theorem AttemptLoop.write_kept {read : List InvocationAttemptRecord} {acc : AttemptPatches}
    (h : AttemptLoop runId aggregate read acc) {attempt : InvocationAttemptRecord} {n : ℕ}
    (r : InvocationAttemptRecord) (hr : r ∈ read ++ [attempt])
    (hnone : (acc.patches.insert attempt.key (n, attempt))[r.key]? = none) : aggregate.attempts[r.key]? = some r := by
  rw [Table.getElem?_insert_eq] at hnone
  split_ifs at hnone with heq
  obtain hr | hr := List.mem_append.mp hr
  · exact h.kept r hr hnone
  · exact absurd (congrArg InvocationAttemptRecord.key (List.mem_singleton.mp hr)).symm heq

theorem AttemptLoop.next {read : List InvocationAttemptRecord} {acc acc' : AttemptPatches}
    {attempt : InvocationAttemptRecord} (h : AttemptLoop runId aggregate read acc)
    (hstep : attemptPatchStep digests runId aggregate acc attempt = .ok acc') :
    AttemptLoop runId aggregate (read ++ [attempt]) acc' := by
  obtain ⟨hrun, hcase⟩ := attemptPatchStep_eq_ok hstep
  have hscoped : ∀ r ∈ read ++ [attempt], r.invocation.runId = runId := by
    intro r hr
    obtain hr | hr := List.mem_append.mp hr
    · exact h.inRun r hr
    · rw [List.mem_singleton.mp hr]
      exact hrun
  cases hcase with
  | listed hknown =>
    refine { h with inRun := hscoped, kept := ?_, patched := ?_ }
    · intro r hr hnone
      obtain hr | hr := List.mem_append.mp hr
      · exact h.kept r hr hnone
      · rw [List.mem_singleton.mp hr] at hnone ⊢
        obtain hs | ⟨_, _, hp⟩ := hknown
        · exact hs
        · rw [hp] at hnone
          cases hnone
    · intro k n r hk
      obtain ⟨hmem, hkey⟩ := h.patched k n r hk
      exact ⟨by simp [hmem], hkey⟩
  | @moved existing n d d' hstored hne hlegal hplaced hold hnew =>
    have hmem := Table.mem_of_getElem? hstored
    refine ⟨hscoped, h.write_kept, h.write_patched, ?_, ?_, h.numbered.insert_old _ (not_not.mpr hmem), ?_, h.fits,
      by simp⟩
    · intro k m r existing' hk hx
      rw [Table.getElem?_insert_eq] at hk
      split_ifs at hk with heq
      · cases hk
        subst heq
        rw [hstored] at hx
        cases hx
        exact ⟨hlegal, hplaced⟩
      · exact h.moved k m r existing' hk hx
    · intro k
      rw [KeySet.mem_insert_iff, h.keys, Std.ExtTreeMap.mem_insert, Std.LawfulEqCmp.compare_eq_iff_eq]
      constructor
      · rintro (rfl | ⟨hp, hs⟩)
        · exact ⟨.inl rfl, hmem⟩
        · exact ⟨.inr hp, hs⟩
      · rintro ⟨rfl | hp, hs⟩
        · exact .inl rfl
        · exact .inr ⟨hp, hs⟩
    · -- the key was there, so the size is the same
      have hin : attempt.key ∈ Table.overlay aggregate.attempts acc.patches (·.2) := by
        rw [Table.mem_iff_getElem?_isSome, Table.getElem?_overlay, hstored]
        cases acc.patches[attempt.key]? <;> rfl
      rw [Table.overlay_insert, Std.ExtTreeMap.size_insert, if_pos (Std.ExtTreeMap.mem_iff_contains.mp hin)]
      exact h.size
  | @added d hunstored hunlisted hnew hfits =>
    have hnot := Table.not_mem_iff_getElem?_eq_none.mpr hunstored
    refine ⟨hscoped, h.write_kept, h.write_patched, ?_, ?_, h.numbered.insert_new _ hunlisted hnot, ?_, .inr hfits,
      by simp⟩
    · intro k m r existing hk hx
      rw [Table.getElem?_insert_eq] at hk
      split_ifs at hk with heq
      · subst heq
        rw [hunstored] at hx
        cases hx
      · exact h.moved k m r existing hk hx
    · intro k
      rw [h.keys, Std.ExtTreeMap.mem_insert, Std.LawfulEqCmp.compare_eq_iff_eq]
      constructor
      · rintro ⟨hp, hs⟩
        exact ⟨.inr hp, hs⟩
      · rintro ⟨rfl | hp, hs⟩
        · exact absurd hs hnot
        · exact ⟨hp, hs⟩
    · have hout : attempt.key ∉ Table.overlay aggregate.attempts acc.patches (·.2) := by
        rw [Table.not_mem_iff_getElem?_eq_none, Table.getElem?_overlay, hunlisted, hunstored]
        rfl
      rw [Table.overlay_insert, Std.ExtTreeMap.size_insert, if_neg fun hc => hout (Std.ExtTreeMap.mem_iff_contains.mpr hc), h.size]
      exact Nat.add_assoc _ _ _

theorem patchAttempts_loop {attempts : AttemptPatches}
    (h : patchAttempts digests runId aggregate commit = .ok attempts) :
    AttemptLoop runId aggregate commit.attempts attempts :=
  foldlM_induction (P := AttemptLoop runId aggregate) h .start
    fun _ _ _ _ _ _ hP hstep => hP.next hstep

/-! ### Fingerprint -/

def attemptRecords (attempts : Table AttemptKey InvocationAttemptRecord) : List InvocationAttemptRecord :=
  attempts.toList.map (·.2)

/-- The record differs from the one that is stored under its key. -/
def changesStored (aggregate : RunAggregate) (r : InvocationAttemptRecord) : Bool :=
  aggregate.attempts[r.key]?.any fun existing => decide (existing ≠ r)

/-- No stored record is changed twice by the commit. -/
def ChangesOnce (aggregate : RunAggregate) (commit : ExecutionCommit) : Prop :=
  ((commit.attempts.filter (changesStored aggregate)).map (·.key)).Nodup

theorem patchAttempts_fingerprint {attempts : AttemptPatches}
    (h : patchAttempts digests runId aggregate commit = .ok attempts) (honce : ChangesOnce aggregate commit)
    (hprint : xorDigests digests.attempt (attemptRecords aggregate.attempts) = some aggregate.attemptsFingerprint) :
    xorDigests digests.attempt (attemptRecords (Table.overlay aggregate.attempts attempts.patches (·.2))) =
      some attempts.fingerprint := by
  -- the patched stored keys are those of changing records read so far
  refine (foldlM_induction (P := fun read acc =>
    xorDigests digests.attempt (attemptRecords (Table.overlay aggregate.attempts acc.patches (·.2))) =
        some acc.fingerprint ∧
      ∀ k ∈ acc.patches, k ∈ aggregate.attempts → ∃ r ∈ read, changesStored aggregate r = true ∧ r.key = k) h ?_ ?_).1
  · refine ⟨by rw [Table.overlay_empty]; exact hprint, ?_⟩
    intro k hk
    simp at hk
  · rintro read attempt rest acc acc' hsplit ⟨hacc, hkeys⟩ hstep
    obtain ⟨_, hcase⟩ := attemptPatchStep_eq_ok hstep
    cases hcase with
    | listed hknown =>
      refine ⟨hacc, ?_⟩
      intro k hk hs
      obtain ⟨r, hr, hchange, hkey⟩ := hkeys k hk hs
      exact ⟨r, by simp [hr], hchange, hkey⟩
    | @moved existing n d d' hstored hne hlegal hplaced hold hnew =>
      have hchange : changesStored aggregate attempt = true := by simp [changesStored, hstored, hne]
      have hunlisted : acc.patches[attempt.key]? = none := by
        rw [← Table.not_mem_iff_getElem?_eq_none]
        intro hp
        obtain ⟨r, hr, hrchange, hrkey⟩ := hkeys _ hp (Table.mem_of_getElem? hstored)
        -- the commit would change the stored record twice
        rw [ChangesOnce, hsplit, List.filter_append, List.map_append, List.filter_cons, if_pos hchange,
          List.map_cons] at honce
        refine List.disjoint_of_nodup_append honce ?_ (List.mem_cons_self (a := attempt.key))
        exact List.mem_map.mpr ⟨r, List.mem_filter.mpr ⟨hr, hrchange⟩, hrkey⟩
      refine ⟨?_, ?_⟩
      · rw [Table.overlay_insert]
        refine xorDigests_insert_old (v := existing) ?_ hacc hold hnew
        rw [Table.getElem?_overlay, hunlisted, hstored]
        rfl
      · intro k hk hs
        rw [Std.ExtTreeMap.mem_insert, Std.LawfulEqCmp.compare_eq_iff_eq] at hk
        obtain rfl | hk := hk
        · exact ⟨attempt, by simp, hchange, rfl⟩
        · obtain ⟨r, hr, hrchange, hrkey⟩ := hkeys k hk hs
          exact ⟨r, by simp [hr], hrchange, hrkey⟩
    | @added d hunstored hunlisted hnew hfits =>
      refine ⟨?_, ?_⟩
      · rw [Table.overlay_insert]
        refine xorDigests_insert_new ?_ hacc hnew
        rw [Table.not_mem_iff_getElem?_eq_none, Table.getElem?_overlay, hunlisted, hunstored]
        rfl
      · intro k hk hs
        rw [Std.ExtTreeMap.mem_insert, Std.LawfulEqCmp.compare_eq_iff_eq] at hk
        obtain rfl | hk := hk
        · exact absurd hs (Table.not_mem_iff_getElem?_eq_none.mpr hunstored)
        · obtain ⟨r, hr, hrchange, hrkey⟩ := hkeys k hk hs
          exact ⟨r, by simp [hr], hrchange, hrkey⟩

/-! ## Steps -/

structure StepLoop (runId : Uuid) (aggregate : RunAggregate) (acc : StepPatches) : Prop where
  patched : ∀ (k : String) n step, acc.patches[k]? = some (n, step) →
    step.runId = runId ∧ step.logicalStepId = k ∧ k ∉ aggregate.steps
  numbered : Numbered (· ∉ aggregate.steps) acc.patches aggregate.nextStepSequence acc.nextSequence
  fits : acc.nextSequence = aggregate.nextStepSequence ∨ acc.nextSequence < 2 ^ 64

theorem patchSteps_loop {steps : StepPatches} (h : patchSteps runId aggregate commit = .ok steps) :
    StepLoop runId aggregate steps := by
  refine foldlM_induction (P := fun _ => StepLoop runId aggregate) h ⟨?_, .empty, .inl rfl⟩ ?_
  · intro k n step hk
    simp at hk
  · intro _ step _ acc acc' _ hP hstep
    simp only [stepPatchStep, bind_eq_ok, ensure_eq_ok] at hstep
    obtain ⟨_, hrun, hstep⟩ := hstep
    cases hs : aggregate.steps[step.logicalStepId]? with
    | some existing =>
      simp only [hs] at hstep
      split_ifs at hstep
      cases hstep
      exact hP
    | none =>
      simp only [hs] at hstep
      cases hp : acc.patches[step.logicalStepId]? with
      | some entry =>
        obtain ⟨n, existing⟩ := entry
        simp only [hp] at hstep
        split_ifs at hstep
        cases hstep
        exact hP
      | none =>
        simp only [hp, bind_eq_ok, okOr_eq_ok, checkedAdd_eq_some] at hstep
        obtain ⟨_, ⟨hfits, rfl⟩, hstep⟩ := hstep
        cases hstep
        have hnot := Table.not_mem_iff_getElem?_eq_none.mpr hs
        refine ⟨?_, hP.numbered.insert_new step hp hnot, .inr hfits⟩
        intro k n step' hk
        rw [Table.getElem?_insert_eq] at hk
        split_ifs at hk with heq
        · cases hk
          exact ⟨hrun, heq, heq ▸ hnot⟩
        · exact hP.patched k n step' hk

/-! ## Results -/

def Completes (attempt : InvocationAttemptRecord) (stored : StoredDurableResult) : Prop :=
  attempt.invocation = stored.completed.invocation ∧ attempt.state = .completed ∧
    attempt.manifest = stored.completed.manifest ∧ attempt.recoveryMode = stored.completed.recoveryMode ∧
    stored.result.schemaDigest = attempt.manifest.schemaDigest ∧
    stored.result.resultRef = stored.completed.resultRef.value

def completedRecords (results : Table Uuid StoredDurableResult) : List CompletedInvocationRecord :=
  results.toList.map (·.2.completed)

structure ResultLoop (digests : Digests) (runId : Uuid) (aggregate : RunAggregate)
    (attempts : Table AttemptKey (ℕ × InvocationAttemptRecord)) (acc : ResultPatches) : Prop where
  patched : ∀ (id : Uuid) stored, acc.patches[id]? = some stored → id ∉ aggregate.results ∧
    stored.completed.invocation.id = id ∧ stored.completed.invocation.runId = runId ∧
    ∃ attempt, attemptAfter aggregate attempts stored.completed.key = some attempt ∧ Completes attempt stored
  size : (Table.overlay aggregate.results acc.patches fun r => r).size = aggregate.results.size + acc.patches.size
  fingerprint :
    xorDigests digests.completed (completedRecords aggregate.results) = some aggregate.completedFingerprint →
      xorDigests digests.completed (completedRecords (Table.overlay aggregate.results acc.patches fun r => r)) =
        some acc.fingerprint
  idle : acc.patches.isEmpty = true → acc.fingerprint = aggregate.completedFingerprint

theorem patchResults_loop {attempts : Table AttemptKey (ℕ × InvocationAttemptRecord)} {results : ResultPatches}
    (h : patchResults digests runId aggregate attempts commit = .ok results) :
    ResultLoop digests runId aggregate attempts results := by
  refine foldlM_induction (P := fun _ => ResultLoop digests runId aggregate attempts) h ⟨?_, ?_, ?_, fun _ => rfl⟩ ?_
  · intro id stored hid
    simp at hid
  · simp [Table.overlay_empty]
  · intro hprint
    rwa [Table.overlay_empty]
  · intro _ mutation _ acc acc' _ hP hstep
    simp only [resultPatchStep, bind_eq_ok, ensure_eq_ok, okOr_eq_ok] at hstep
    obtain ⟨_, ⟨hrun, href⟩, attempt, hattempt, _, ⟨hinv, hstate, hman, hmode, hschema⟩, hstep⟩ := hstep
    cases hs : aggregate.results[mutation.completed.invocation.id]? with
    | some existing =>
      simp only [hs] at hstep
      split_ifs at hstep
      cases hstep
      exact hP
    | none =>
      simp only [hs] at hstep
      cases hp : acc.patches[mutation.completed.invocation.id]? with
      | some existing =>
        simp only [hp] at hstep
        split_ifs at hstep
        cases hstep
        exact hP
      | none =>
        simp only [hp, bind_eq_ok, toStore_eq_ok, HistoryFingerprint.includeValue_eq_ok] at hstep
        obtain ⟨_, ⟨d, hd, rfl⟩, hstep⟩ := hstep
        cases hstep
        have hnot := Table.not_mem_iff_getElem?_eq_none.mpr hs
        have hout : mutation.completed.invocation.id ∉ Table.overlay aggregate.results acc.patches fun r => r := by
          rw [Table.not_mem_iff_getElem?_eq_none, Table.getElem?_overlay, hp, hs]
          rfl
        have hnew := Table.not_mem_iff_getElem?_eq_none.mpr hp
        refine ⟨?_, ?_, ?_, by simp⟩
        · intro id stored hid
          rw [Table.getElem?_insert_eq] at hid
          split_ifs at hid with heq
          · cases hid
            exact ⟨heq ▸ hnot, heq, hrun, attempt, hattempt, hinv, hstate, hman, hmode, hschema, href.symm⟩
          · exact hP.patched id stored hid
        · rw [Table.overlay_insert, Std.ExtTreeMap.size_insert,
            if_neg fun hc => hout (Std.ExtTreeMap.mem_iff_contains.mpr hc), hP.size, Std.ExtTreeMap.size_insert,
            if_neg fun hc => hnew (Std.ExtTreeMap.mem_iff_contains.mpr hc)]
          exact Nat.add_assoc _ _ _
        · intro hprint
          rw [Table.overlay_insert]
          exact xorDigests_insert_new hout (hP.fingerprint hprint) hd

/-! ## The history after a commit -/

theorem legalAttemptTransition_eq_true {existing r : InvocationAttemptRecord}
    (h : legalAttemptTransition existing r = true) :
    ((existing.state = .dispatching ∧ (r.state = .completed ∨ r.state = .uncertain)) ∨
        (existing.state = .pending ∧ r.state = .dispatching)) ∧
      existing.invocation = r.invocation ∧ existing.manifest = r.manifest ∧ existing.recoveryMode = r.recoveryMode := by
  simp only [legalAttemptTransition, Bool.and_eq_true, decide_eq_true_eq, beq_iff_eq] at h
  obtain ⟨⟨⟨hstate, hinv⟩, hman⟩, hmode⟩ := h
  refine ⟨?_, hinv, hman, hmode⟩
  split at hstate
  · next he hr => exact .inl ⟨he, .inl hr⟩
  · next he hr => exact .inl ⟨he, .inr hr⟩
  · next he hr => exact .inr ⟨he, hr⟩
  · cases hstate

namespace Built

theorem attemptLoop (b : Built digests s ownerId commit nowMs patch) :
    AttemptLoop commit.lease.runId b.aggregate commit.attempts b.attempts := patchAttempts_loop b.attempts_eq

theorem stepLoop (b : Built digests s ownerId commit nowMs patch) :
    StepLoop commit.lease.runId b.aggregate b.steps := patchSteps_loop b.steps_eq

theorem resultLoop (b : Built digests s ownerId commit nowMs patch) :
    ResultLoop digests commit.lease.runId b.aggregate b.attempts.patches b.results := patchResults_loop b.results_eq

theorem attempts_after (b : Built digests s ownerId commit nowMs patch) :
    (b.aggregate.patched patch).attempts = Table.overlay b.aggregate.attempts b.attempts.patches (·.2) := by
  rw [RunAggregate.patched, b.patchAttempts_eq.1]
  rfl

theorem attemptOrder_after (b : Built digests s ownerId commit nowMs patch) :
    (b.aggregate.patched patch).attemptOrder = extendOrder b.aggregate.attemptOrder b.attempts.patches := by
  rw [RunAggregate.patched, b.patchAttempts_eq.1]
  rfl

theorem steps_after (b : Built digests s ownerId commit nowMs patch) :
    (b.aggregate.patched patch).steps = Table.overlay b.aggregate.steps b.steps.patches (·.2) := by
  rw [RunAggregate.patched, b.patchSteps_eq.1]
  rfl

theorem stepOrder_after (b : Built digests s ownerId commit nowMs patch) :
    (b.aggregate.patched patch).stepOrder = extendOrder b.aggregate.stepOrder b.steps.patches := by
  rw [RunAggregate.patched, b.patchSteps_eq.1]
  rfl

theorem results_after (b : Built digests s ownerId commit nowMs patch) :
    (b.aggregate.patched patch).results = Table.overlay b.aggregate.results b.results.patches fun r => r := by
  rw [RunAggregate.patched, b.patchResults_eq.1]
  rfl

theorem events_after (b : Built digests s ownerId commit nowMs patch) :
    (b.aggregate.patched patch).events = b.aggregate.events ++ commit.events := by
  rw [RunAggregate.patched, b.patchEvents_eq]

theorem attemptAfter_eq (b : Built digests s ownerId commit nowMs patch) (k : AttemptKey) :
    (b.aggregate.patched patch).attempts[k]? = attemptAfter b.aggregate b.attempts.patches k := by
  rw [b.attempts_after, Table.getElem?_overlay, attemptAfter]
  cases b.attempts.patches[k]? <;> rfl

/-- Where an attempt after the commit comes from: it was there, it is a new record of the commit, or the commit
changed the stored one to it. -/
theorem attempt_cases (b : Built digests s ownerId commit nowMs patch) {k : AttemptKey} {r : InvocationAttemptRecord}
    (h : (b.aggregate.patched patch).attempts[k]? = some r) :
    (b.aggregate.attempts[k]? = some r ∧ b.attempts.patches[k]? = none) ∨
      (r ∈ commit.attempts ∧ r.key = k ∧ (∃ n, b.attempts.patches[k]? = some (n, r)) ∧
        (b.aggregate.attempts[k]? = none ∨ ∃ existing, b.aggregate.attempts[k]? = some existing ∧
          legalAttemptTransition existing r = true)) := by
  rw [b.attempts_after, Table.getElem?_overlay] at h
  cases hp : b.attempts.patches[k]? with
  | none =>
    rw [hp] at h
    exact .inl ⟨h, rfl⟩
  | some entry =>
    obtain ⟨n, r'⟩ := entry
    rw [hp] at h
    cases h
    obtain ⟨hmem, hkey⟩ := b.attemptLoop.patched k n r' hp
    refine .inr ⟨hmem, hkey, ⟨n, rfl⟩, ?_⟩
    cases hs : b.aggregate.attempts[k]? with
    | none => exact .inl rfl
    | some existing => exact .inr ⟨existing, rfl, (b.attemptLoop.moved k n r' existing hp hs).1⟩

theorem attempt_kept (b : Built digests s ownerId commit nowMs patch) {k : AttemptKey} {r : InvocationAttemptRecord}
    (h : b.aggregate.attempts[k]? = some r) :
    ∃ r', (b.aggregate.patched patch).attempts[k]? = some r' ∧ (r' = r ∨ legalAttemptTransition r r' = true) := by
  rw [b.attempts_after, Table.getElem?_overlay]
  cases hp : b.attempts.patches[k]? with
  | none => exact ⟨r, h, .inl rfl⟩
  | some entry =>
    obtain ⟨n, r'⟩ := entry
    exact ⟨r', rfl, .inr (b.attemptLoop.moved k n r' r hp h).1⟩

end Built

/-- The records of a run's history are stored under their own keys and belong to the run, and every result completes
a stored attempt. -/
structure HistoryKeyed (runId : Uuid) (a : RunAggregate) : Prop where
  attempts : ∀ (k : AttemptKey) r, a.attempts[k]? = some r → r.key = k ∧ r.invocation.runId = runId
  steps : ∀ (k : String) step, a.steps[k]? = some step → step.logicalStepId = k ∧ step.runId = runId
  results : ∀ (id : Uuid) stored, a.results[id]? = some stored →
    stored.completed.invocation.id = id ∧ stored.completed.invocation.runId = runId ∧
      ∃ attempt, a.attempts[(id, stored.completed.attemptNumber)]? = some attempt ∧ Completes attempt stored

theorem historyKeyed_fresh (stored : StoredRun) : HistoryKeyed runId (.fresh stored) := by
  refine ⟨?_, ?_, ?_⟩
  · intro k r h
    simp [RunAggregate.fresh] at h
  · intro k r h
    simp [RunAggregate.fresh] at h
  · intro k r h
    simp [RunAggregate.fresh] at h

theorem historyKeyed_commit (b : Built digests s ownerId commit nowMs patch)
    (h : HistoryKeyed commit.lease.runId b.aggregate) :
    HistoryKeyed commit.lease.runId (b.aggregate.patched patch) := by
  refine ⟨?_, ?_, ?_⟩
  · intro k r hk
    obtain ⟨hold, _⟩ | ⟨hmem, hkey, _⟩ := b.attempt_cases hk
    · exact h.attempts k r hold
    · exact ⟨hkey, b.attemptLoop.inRun r hmem⟩
  · intro k step hk
    rw [b.steps_after, Table.getElem?_overlay] at hk
    cases hp : b.steps.patches[k]? with
    | none =>
      rw [hp] at hk
      exact h.steps k step hk
    | some entry =>
      obtain ⟨n, step'⟩ := entry
      rw [hp] at hk
      cases hk
      obtain ⟨hrun, hid, _⟩ := b.stepLoop.patched k n step' hp
      exact ⟨hid, hrun⟩
  · intro id stored hid
    rw [b.results_after, Table.getElem?_overlay] at hid
    cases hp : b.results.patches[id]? with
    | none =>
      rw [hp] at hid
      obtain ⟨hinv, hrun, attempt, hattempt, hcompletes⟩ := h.results id stored hid
      obtain ⟨r, hr, hsame | hmoved⟩ := b.attempt_kept hattempt
      · exact ⟨hinv, hrun, r, hr, hsame ▸ hcompletes⟩
      · -- a completed record is never changed
        obtain ⟨⟨hstate, _⟩ | ⟨hstate, _⟩, _⟩ := legalAttemptTransition_eq_true hmoved
        · rw [hcompletes.2.1] at hstate
          cases hstate
        · rw [hcompletes.2.1] at hstate
          cases hstate
    | some value =>
      rw [hp] at hid
      cases hid
      obtain ⟨_, hinv, hrun, attempt, hattempt, hcompletes⟩ := b.resultLoop.patched id value hp
      refine ⟨hinv, hrun, attempt, ?_, hcompletes⟩
      rw [b.attemptAfter_eq, ← hinv]
      exact hattempt

theorem historyKeyed_of_reaches {allowed : State → Op → Prop} (h : Reaches (step digests) allowed State.empty s)
    {a : RunAggregate} (ha : s.runs[(ownerId, runId)]? = some a) : HistoryKeyed runId a :=
  runs_invariant (P := fun _ runId a => HistoryKeyed runId a) h (fun _ _ stored _ _ _ _ => historyKeyed_fresh stored)
    (fun _ _ _ _ hk _ _ => ⟨hk.attempts, hk.steps, hk.results⟩)
    (fun _ _ _ _ _ b _ _ _ hk => historyKeyed_commit b hk) ha

end AnimaCore
