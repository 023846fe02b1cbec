import AnimaCore.Execution.History

/-!
# AnimaCore.Execution.CheckpointExact — the stored checkpoint is a snapshot of its run

A commit compares a replacing checkpoint with the history by lengths and by two fingerprints that the attempt and
result loops carry along.  The attempt loop takes the stored record out of the fingerprint at every listed change of
it, so the fingerprint is that of the history if no stored record is changed twice by one commit (`ChangesOnce`).

* `Printed`: the two fingerprints of a run are those of its attempts and of its completed results.
* `SnapshotOf a c`: the checkpoint `c` agrees with the run `a` in every part.
-/

namespace AnimaCore

open Lib

variable {digests : Digests} {s : State} {ownerId runId : Uuid} {commit : ExecutionCommit} {nowMs : ℕ}
  {patch : CommitPatch} {aggregate : RunAggregate}

/-! ## Fingerprints -/

theorem HistoryFingerprint.fromValues_eq_ok {α : Type} {digest : α → Option (BitVec 256)} {values : List α}
    {fp : HistoryFingerprint} : fromValues digest values = .ok fp ↔ xorDigests digest values = some fp := by
  -- from any fingerprint to start with
  have hfold : ∀ (values : List α) (fp fp' : HistoryFingerprint),
      values.foldlM (includeValue digest) fp = .ok fp' ↔ ∃ x, xorDigests digest values = some x ∧ fp' = fp ^^^ x := by
    intro values
    induction values with
    | nil =>
      intro fp fp'
      simp only [List.foldlM_nil, xorDigests_nil, Option.some.injEq, exists_eq_left', BitVec.ofNat_eq_ofNat,
        BitVec.xor_zero]
      exact ⟨fun h => (Except.ok.inj h).symm, fun h => congrArg Except.ok h.symm⟩
    | cons value values ih =>
      intro fp fp'
      simp only [List.foldlM_cons, bind_eq_ok, includeValue_eq_ok, ih, xorDigests_cons_eq_some]
      constructor
      · rintro ⟨_, ⟨d, hd, rfl⟩, x, hx, rfl⟩
        exact ⟨d ^^^ x, ⟨d, x, hd, hx, rfl⟩, BitVec.xor_assoc _ _ _⟩
      · rintro ⟨_, ⟨d, x, hd, hx, rfl⟩, rfl⟩
        exact ⟨_, ⟨d, hd, rfl⟩, x, hx, (BitVec.xor_assoc _ _ _).symm⟩
  rw [fromValues, hfold]
  constructor
  · rintro ⟨x, hx, rfl⟩
    simpa using hx
  · intro hx
    exact ⟨fp, hx, by simp⟩

/-- The fingerprints of a run are those of its attempts and its completed results. -/
structure Printed (digests : Digests) (a : RunAggregate) : Prop where
  attempts : xorDigests digests.attempt (attemptRecords a.attempts) = some a.attemptsFingerprint
  completed : xorDigests digests.completed (completedRecords a.results) = some a.completedFingerprint

/-- The calls whose commits change no stored record twice. -/
def changesOnce (s : State) (op : Op) : Prop :=
  match op with
  | .commit ownerId commit _ => ∀ a, s.runs[(ownerId, commit.lease.runId)]? = some a → ChangesOnce a commit
  | _ => True

theorem printed_commit (b : Built digests s ownerId commit nowMs patch) (h : Printed digests b.aggregate)
    (honce : ChangesOnce b.aggregate commit) : Printed digests (b.aggregate.patched patch) := by
  constructor
  · rw [b.attempts_after, RunAggregate.patched, b.patchAttempts_eq.2.2]
    exact patchAttempts_fingerprint b.attempts_eq honce h.attempts
  · rw [b.results_after, RunAggregate.patched, b.patchResults_eq.2]
    exact b.resultLoop.fingerprint h.completed

theorem printed_of_reaches (h : Reaches (step digests) changesOnce State.empty s) {a : RunAggregate}
    (ha : s.runs[(ownerId, runId)]? = some a) : Printed digests a := by
  refine runs_invariant (P := fun _ _ a => Printed digests a) h ?_ (fun _ _ _ _ hk _ _ => ⟨hk.attempts, hk.completed⟩) ?_ ha
  · intro _ _ stored _ _ _ _
    exact ⟨rfl, rfl⟩
  · intro s ownerId commit nowMs patch b _ hal _ hk
    exact printed_commit b hk (hal _ b.found)

/-! ## Order -/

theorem attemptRecords_increasing {a : RunAggregate} (h : HistoryKeyed runId a) :
    ((attemptRecords a.attempts).map (·.key)).Pairwise fun k k' => compare k k' = .lt := by
  rw [attemptRecords, List.map_map, List.pairwise_map]
  refine (Std.ExtTreeMap.ordered_keys_toList (t := a.attempts)).imp_of_mem ?_
  intro e e' he he' hlt
  rw [Function.comp_apply, Function.comp_apply, (h.attempts _ _ (Table.mem_toList.mp he)).1,
    (h.attempts _ _ (Table.mem_toList.mp he')).1]
  exact hlt

theorem completedRecords_increasing {a : RunAggregate} (h : HistoryKeyed runId a) :
    ((completedRecords a.results).map (·.key)).Pairwise fun k k' => compare k k' = .lt := by
  rw [completedRecords, List.map_map, List.pairwise_map]
  refine (Std.ExtTreeMap.ordered_keys_toList (t := a.results)).imp_of_mem ?_
  intro e e' he he' hlt
  have hid := (h.results _ _ (Table.mem_toList.mp he)).1
  have hid' := (h.results _ _ (Table.mem_toList.mp he')).1
  simp only [Function.comp_apply, CompletedInvocationRecord.key, hid, hid']
  exact compare_lt_of_fst hlt

theorem CheckpointV1.attempts_increasing (c : CheckpointV1) :
    (c.attempts.map (·.key)).Pairwise fun k k' => compare k k' = .lt := by
  have h := c.valid
  simp only [CheckpointWire.validate, bind_eq_ok] at h
  obtain ⟨_, _, _, _, _, _, _, _, scan, hscan, _⟩ := h
  refine Table.pairwise_of_isChain (foldlM_induction (P := fun read scan =>
    (read.map InvocationAttemptRecord.key).IsChain (fun k k' => compare k k' = .lt) ∧
      scan.previous = (read.map InvocationAttemptRecord.key).getLast?) hscan ⟨by simp, by simp⟩ ?_).1
  rintro read record _ acc acc' _ ⟨hchain, hprev⟩ hstep
  simp only [CheckpointWire.attemptScanStep, bind_eq_ok, ensure_eq_ok] at hstep
  obtain ⟨_, _, _, _, _, ⟨hlt, _⟩, hstep⟩ := hstep
  cases hstep
  refine ⟨?_, by simp⟩
  rw [List.map_append, List.isChain_append]
  refine ⟨hchain, by simp, ?_⟩
  intro k hk k' hk'
  rw [hprev, Option.mem_def.mp hk] at hlt
  simp only [List.map_cons, List.map_nil, List.head?_cons, Option.mem_some] at hk'
  subst hk'
  simpa using hlt

theorem CheckpointV1.completed_increasing (c : CheckpointV1) :
    (c.completedInvocations.map (·.key)).Pairwise fun k k' => compare k k' = .lt := by
  have h := c.valid
  simp only [CheckpointWire.validate, CheckpointWire.validateRecords, canonical, bind_eq_ok, ensure_eq_ok] at h
  obtain ⟨_, _, _, _, _, _, _, _, _, _, _, ⟨_, hchain, _⟩, _⟩ := h
  exact Table.pairwise_of_isChain hchain

/-! ## Snapshots -/

/-- The checkpoint agrees with the run in every part. -/
structure SnapshotOf (a : RunAggregate) (c : CheckpointV1) : Prop where
  runId : c.runId = a.stored.run.id
  sessionId : c.sessionId = a.stored.run.sessionId
  definition : c.definition.id = a.stored.run.definitionId ∧ c.definition.version = a.stored.run.definitionVersion
  state : c.state = a.stored.run.state
  pauseReason : c.pauseReason = a.stored.run.pauseReason
  pendingApproval : c.pendingApproval.map (·.request) = a.stored.run.pendingApproval
  lastSequence : c.lastDurableEventSequence = a.events.length
  attempts : a.attempts.toList = c.attempts.map fun r => (r.key, r)
  completed : c.completedInvocations = completedRecords a.results
  cursor : ∀ cursor, c.cursor = some cursor → cursor.logicalStepId ∈ a.steps

/-- The stored records, and those of the checkpoint, are among `S` and `T`. -/
structure StoredWithin (S : InvocationAttemptRecord → Prop) (T : CompletedInvocationRecord → Prop) (a : RunAggregate) :
    Prop where
  attempts : ∀ (k : AttemptKey) r, a.attempts[k]? = some r → S r
  completed : ∀ (id : Uuid) stored, a.results[id]? = some stored → T stored.completed
  checkpoint : ∀ c, a.checkpoint = some c → (∀ r ∈ c.attempts, S r) ∧ ∀ r ∈ c.completedInvocations, T r

/-- The records that a commit lists, and those of its checkpoint, are among `S` and `T`. -/
def recordsWithin (S : InvocationAttemptRecord → Prop) (T : CompletedInvocationRecord → Prop) (op : Op) : Prop :=
  match op with
  | .commit _ commit _ => (∀ r ∈ commit.attempts, S r) ∧ (∀ m ∈ commit.results, T m.completed) ∧
      ∀ c, commit.checkpoint = .replace c → (∀ r ∈ c.attempts, S r) ∧ ∀ r ∈ c.completedInvocations, T r
  | _ => True

variable {S : InvocationAttemptRecord → Prop} {T : CompletedInvocationRecord → Prop} {c : CheckpointV1}

theorem Built.checkpoint_cases (b : Built digests s ownerId commit nowMs patch)
    (h : (b.aggregate.patched patch).checkpoint = some c) :
    (commit.checkpoint = .unchanged ∧ b.aggregate.checkpoint = some c) ∨ commit.checkpoint = .replace c := by
  have hnext : nextCheckpoint b.aggregate commit = some c := b.checkpoint_eq.symm.trans h
  cases hm : commit.checkpoint with
  | unchanged =>
    rw [nextCheckpoint, hm] at hnext
    exact .inl ⟨rfl, hnext⟩
  | clear =>
    rw [nextCheckpoint, hm] at hnext
    cases hnext
  | replace c' =>
    rw [nextCheckpoint, hm] at hnext
    cases hnext
    exact .inr rfl

theorem patchResults_listed {attempts : Table AttemptKey (ℕ × InvocationAttemptRecord)} {results : ResultPatches}
    (h : patchResults digests runId aggregate attempts commit = .ok results) {id : Uuid} {stored : StoredDurableResult}
    (hid : results.patches[id]? = some stored) : ∃ m ∈ commit.results, m.completed = stored.completed := by
  refine foldlM_induction (P := fun read acc => ∀ (id : Uuid) stored, acc.patches[id]? = some stored →
    ∃ m ∈ read, m.completed = stored.completed) h ?_ ?_ id stored hid
  · intro id stored hid
    simp at hid
  · intro read mutation _ acc acc' _ hP hstep id stored hid
    simp only [resultPatchStep, bind_eq_ok] at hstep
    obtain ⟨_, _, _, _, _, _, hstep⟩ := hstep
    have hold : acc' = acc ∨ ∃ fp, acc' =
        { patches := acc.patches.insert mutation.completed.invocation.id
            { completed := mutation.completed, result := mutation.result }, fingerprint := fp } := by
      split at hstep
      · split_ifs at hstep
        cases hstep
        exact .inl rfl
      · split at hstep
        · split_ifs at hstep
          cases hstep
          exact .inl rfl
        · simp only [bind_eq_ok] at hstep
          obtain ⟨fp, _, hstep⟩ := hstep
          cases hstep
          exact .inr ⟨fp, rfl⟩
    obtain rfl | ⟨fp, rfl⟩ := hold
    · obtain ⟨m, hm, hmc⟩ := hP id stored hid
      exact ⟨m, by simp [hm], hmc⟩
    · rw [Table.getElem?_insert_eq] at hid
      split_ifs at hid
      · cases hid
        exact ⟨mutation, by simp, rfl⟩
      · obtain ⟨m, hm, hmc⟩ := hP id stored hid
        exact ⟨m, by simp [hm], hmc⟩

theorem storedWithin_commit (b : Built digests s ownerId commit nowMs patch) (h : StoredWithin S T b.aggregate)
    (hop : recordsWithin S T (.commit ownerId commit nowMs)) : StoredWithin S T (b.aggregate.patched patch) := by
  refine ⟨?_, ?_, ?_⟩
  · intro k r hk
    obtain ⟨hold, _⟩ | ⟨hmem, _⟩ := b.attempt_cases hk
    · exact h.attempts k r hold
    · exact hop.1 r hmem
  · intro id stored hid
    rw [b.results_after, Table.getElem?_overlay] at hid
    cases hp : b.results.patches[id]? with
    | none =>
      rw [hp] at hid
      exact h.completed id stored hid
    | some value =>
      rw [hp] at hid
      cases hid
      obtain ⟨m, hm, hmc⟩ := patchResults_listed b.results_eq hp
      exact hmc ▸ hop.2.1 m hm
  · intro c hc
    obtain ⟨_, hold⟩ | hnew := b.checkpoint_cases hc
    · exact h.checkpoint c hold
    · exact hop.2.2 c hnew

structure Replaced (digests : Digests) (a : RunAggregate) (c : CheckpointV1) : Prop where
  runId : c.runId = a.stored.run.id
  sessionId : c.sessionId = a.stored.run.sessionId
  definition : c.definition.id = a.stored.run.definitionId ∧ c.definition.version = a.stored.run.definitionVersion
  state : c.state = a.stored.run.state
  pauseReason : c.pauseReason = a.stored.run.pauseReason
  pendingApproval : c.pendingApproval.map (·.request) = a.stored.run.pendingApproval
  lastSequence : c.lastDurableEventSequence = a.events.length
  lengths : c.attempts.length = a.attempts.size ∧ c.completedInvocations.length = a.results.size
  attempts : c.attemptsFingerprint digests = .ok a.attemptsFingerprint
  completed : c.completedFingerprint digests = .ok a.completedFingerprint
  cursor : ∀ cursor, c.cursor = some cursor → cursor.logicalStepId ∈ a.steps

theorem Built.replaced (b : Built digests s ownerId commit nowMs patch) (hcom : Committed digests s ownerId commit nowMs patch)
    (hc : commit.checkpoint = .replace c) : Replaced digests (b.aggregate.patched patch) c := by
  have hheader := b.replacementHeader
  have hhistory := b.replacementHistory
  simp only [checkReplacementHeader, hc, ensure_eq_ok] at hheader
  simp only [checkReplacementHistory, hc, bind_eq_ok, ensure_eq_ok, okOr_eq_ok, checkedAdd_eq_some] at hhistory
  obtain ⟨hrun, hsession, hid, hversion, hstate, hpause, hpending, _, hlast⟩ := hheader
  obtain ⟨_, ⟨_, rfl⟩, _, ⟨_, rfl⟩, hla, hlc, hfa, hfc, hcursor⟩ := hhistory
  obtain ⟨_, hsid, hdid, hdv, _⟩ := b.same_run
  have hevents : b.lastSequence = b.aggregate.events.length + commit.events.length := by
    have h := b.events
    simp only [checkEvents, bind_eq_ok, okOr_eq_ok, checkedAdd_eq_some] at h
    obtain ⟨_, _, _, ⟨_, rfl⟩, _, _, _, _, _, _, h⟩ := h
    exact (congrArg Prod.snd (Except.ok.inj h)).symm
  have hstored : (b.aggregate.patched patch).stored.run = commit.targetRun := b.stored_run
  constructor
  · rw [hstored, hcom.run_eq.2, hrun]
  · rw [hstored, ← hsid, hsession]
  · rw [hstored, ← hdid, ← hdv]
    exact ⟨hid, hversion⟩
  · rw [hstored, hstate]
  · rw [hstored, hpause]
  · rw [hstored, hpending]
  · rw [b.events_after, List.length_append, hlast, hevents]
  · rw [b.attempts_after, b.results_after, b.attemptLoop.size, b.resultLoop.size]
    exact ⟨hla, hlc⟩
  · rw [RunAggregate.patched, b.patchAttempts_eq.2.2]
    exact hfa
  · rw [RunAggregate.patched, b.patchResults_eq.2]
    exact hfc
  · intro cursor hcur
    rw [hcur, Option.all_some, Bool.or_eq_true, decide_eq_true_eq, decide_eq_true_eq] at hcursor
    rw [b.steps_after, Table.mem_iff_getElem?_isSome, Table.getElem?_overlay]
    cases hp : b.steps.patches[cursor.logicalStepId]? with
    | some entry => rfl
    | none =>
      obtain hin | hin := hcursor
      · exact Table.mem_iff_getElem?_isSome.mp hin
      · rw [Table.mem_iff_getElem?_isSome, hp] at hin
        cases hin

theorem Replaced.congr {a a' : RunAggregate} (h : Replaced digests a c) (hrun : a'.stored.run = a.stored.run)
    (hevents : a'.events = a.events) (hattempts : a'.attempts = a.attempts) (hresults : a'.results = a.results)
    (hsteps : a'.steps = a.steps) (hfa : a'.attemptsFingerprint = a.attemptsFingerprint)
    (hfc : a'.completedFingerprint = a.completedFingerprint) : Replaced digests a' c where
  runId := by rw [hrun, h.runId]
  sessionId := by rw [hrun, h.sessionId]
  definition := by rw [hrun]; exact h.definition
  state := by rw [hrun, h.state]
  pauseReason := by rw [hrun, h.pauseReason]
  pendingApproval := by rw [hrun, h.pendingApproval]
  lastSequence := by rw [hevents, h.lastSequence]
  lengths := by rw [hattempts, hresults]; exact h.lengths
  attempts := by rw [hfa, h.attempts]
  completed := by rw [hfc, h.completed]
  cursor := by rw [hsteps]; exact h.cursor

theorem Replaced.unchanged (b : Built digests s ownerId commit nowMs patch) (hc : commit.checkpoint = .unchanged)
    (h : Replaced digests b.aggregate c) : Replaced digests (b.aggregate.patched patch) c := by
  have hd := b.decision
  simp only [checkCheckpointDecision, bind_eq_ok, ensure_eq_ok] at hd
  obtain ⟨_, hsame, _⟩ := hd
  obtain ⟨hrun, hevents, hsteps, hattempts, hresults⟩ := hsame hc
  refine h.congr ?_ ?_ ?_ ?_ ?_ ?_ ?_
  · rw [RunAggregate.patched_stored, b.stored_run, hrun]
  · rw [b.events_after, hevents, List.append_nil]
  · rw [b.attempts_after, Std.ExtTreeMap.isEmpty_iff.mp hattempts, Table.overlay_empty]
  · rw [b.results_after, Std.ExtTreeMap.isEmpty_iff.mp hresults, Table.overlay_empty]
  · rw [b.steps_after, Std.ExtTreeMap.isEmpty_iff.mp hsteps, Table.overlay_empty]
  · rw [RunAggregate.patched, b.patchAttempts_eq.2.2, b.attemptLoop.idle hattempts]
  · rw [RunAggregate.patched, b.patchResults_eq.2, b.resultLoop.idle hresults]

theorem replaced_of_reaches {allowed : State → Op → Prop} (h : Reaches (step digests) allowed State.empty s)
    {a : RunAggregate} (ha : s.runs[(ownerId, runId)]? = some a) (hc : a.checkpoint = some c) : Replaced digests a c := by
  refine runs_invariant (P := fun _ _ a => ∀ c, a.checkpoint = some c → Replaced digests a c) h ?_ ?_ ?_ ha c hc
  · intro _ _ stored _ _ _ _ c hc
    cases hc
  · intro _ _ a lease hk _ _ c hc
    exact (hk c hc).congr rfl rfl rfl rfl rfl rfl rfl
  · intro s ownerId commit nowMs patch b _ _ hcom hk c hc
    obtain ⟨hm, hold⟩ | hm := b.checkpoint_cases hc
    · exact (hk c hold).unchanged b hm
    · exact b.replaced hcom hm

theorem Replaced.snapshotOf {a : RunAggregate} (h : Replaced digests a c) (hc : a.checkpoint = some c)
    (hp : Printed digests a) (hk : HistoryKeyed runId a) (hin : StoredWithin S T a)
    (hS : NoCollision digests.attempt S) (hT : NoCollision digests.completed T) : SnapshotOf a c := by
  obtain ⟨hca, hcc⟩ := hin.checkpoint c hc
  have hattempts : c.attempts = attemptRecords a.attempts := by
    have hi := c.attempts_increasing
    have hi' := attemptRecords_increasing hk
    refine Table.eq_of_perm_of_pairwise (perm_of_xorDigests_eq hS hca ?_ (Table.nodup_of_pairwise hi)
      (Table.nodup_of_pairwise hi') (HistoryFingerprint.fromValues_eq_ok.mp h.attempts) hp.attempts) hi hi'
    intro r hr
    obtain ⟨⟨k, _⟩, hmem, rfl⟩ := List.mem_map.mp hr
    exact hin.attempts k _ (Table.mem_toList.mp hmem)
  have hcompleted : c.completedInvocations = completedRecords a.results := by
    have hi := c.completed_increasing
    have hi' := completedRecords_increasing hk
    refine Table.eq_of_perm_of_pairwise (perm_of_xorDigests_eq hT hcc ?_ (Table.nodup_of_pairwise hi)
      (Table.nodup_of_pairwise hi') (HistoryFingerprint.fromValues_eq_ok.mp h.completed) hp.completed) hi hi'
    intro r hr
    obtain ⟨⟨id, _⟩, hmem, rfl⟩ := List.mem_map.mp hr
    exact hin.completed id _ (Table.mem_toList.mp hmem)
  refine ⟨h.runId, h.sessionId, h.definition, h.state, h.pauseReason, h.pendingApproval, h.lastSequence, ?_,
    hcompleted, h.cursor⟩
  rw [hattempts, attemptRecords, List.map_map]
  refine ((List.map_congr_left (g := id) ?_).trans (List.map_id _)).symm
  rintro ⟨k, r⟩ hmem
  rw [Function.comp_apply, (hk.attempts k r (Table.mem_toList.mp hmem)).1]
  rfl

/-- The calls whose commits change no stored record twice and list records among `S` and `T`. -/
def snapshotsWithin (S : InvocationAttemptRecord → Prop) (T : CompletedInvocationRecord → Prop) (s : State) (op : Op) :
    Prop :=
  changesOnce s op ∧ recordsWithin S T op

theorem storedWithin_of_reaches (h : Reaches (step digests) (snapshotsWithin S T) State.empty s) {a : RunAggregate}
    (ha : s.runs[(ownerId, runId)]? = some a) : StoredWithin S T a := by
  refine runs_invariant (P := fun _ _ a => StoredWithin S T a) h ?_
    (fun _ _ _ _ hk _ _ => ⟨hk.attempts, hk.completed, hk.checkpoint⟩) ?_ ha
  · intro _ _ stored _ _ _ _
    refine ⟨?_, ?_, ?_⟩
    · intro k r hk
      simp [RunAggregate.fresh] at hk
    · intro id stored hid
      simp [RunAggregate.fresh] at hid
    · intro c hc
      cases hc
  · intro s ownerId commit nowMs patch b _ hal _ hk
    exact storedWithin_commit b hk hal.2

/-- **The stored checkpoint is an exact snapshot** of its run, in every run whose commits change no stored record
twice, if the records that they list collide only by being listed an even number of times. -/
theorem checkpoint_exact (digests : Digests) (S : InvocationAttemptRecord → Prop) (T : CompletedInvocationRecord → Prop)
    (hS : NoCollision digests.attempt S) (hT : NoCollision digests.completed T) (s : State)
    (h : Reaches (step digests) (snapshotsWithin S T) State.empty s) (ownerId runId : Uuid) (a : RunAggregate)
    (ha : s.runs[(ownerId, runId)]? = some a) (c : CheckpointV1) (hc : a.checkpoint = some c) : SnapshotOf a c := by
  have hprinted := printed_of_reaches (h.mono fun _ _ hop => hop.1) ha
  exact (replaced_of_reaches h ha hc).snapshotOf hc hprinted (historyKeyed_of_reaches h ha)
    (storedWithin_of_reaches h ha) hS hT

def Sample.FirstAttempt (r : InvocationAttemptRecord) : Prop :=
  r = Sample.attempt 1 .dispatching Sample.first_bound ∨ r = Sample.attempt 1 .uncertain Sample.first_bound

theorem firstAttempt_noCollision : NoCollision Sample.digests.attempt Sample.FirstAttempt :=
  noCollision_pair rfl rfl (by decide) (by decide) (by decide)

theorem noCollision_false {α : Type} [DecidableEq α] {digest : α → Option (BitVec 256)} :
    NoCollision digest fun _ => False := by
  rintro (_ | ⟨a, l⟩) hl _ b
  · simp
  · exact (hl a List.mem_cons_self).elim

theorem saved_reaches :
    Reaches (step Sample.digests) (snapshotsWithin Sample.FirstAttempt fun _ => False) State.empty Sample.saved := by
  have hstart : snapshotsWithin Sample.FirstAttempt (fun _ => False)
      (run (step Sample.digests) State.empty [Sample.createRun, Sample.acquireLease])
      (.commit Sample.ownerId Sample.start 10) :=
    ⟨fun a _ => List.nodup_nil, by simp [recordsWithin, Sample.start, Sample.commit]⟩
  have hsave : snapshotsWithin Sample.FirstAttempt (fun _ => False)
      (run (step Sample.digests) Sample.started [Sample.installPolicy "def-a"])
      (.commit Sample.ownerId Sample.saveDispatch 20) := by
    refine ⟨fun a _ => ?_, ?_, ?_, ?_⟩
    · change (([Sample.attempt 1 .dispatching].filter (changesStored a)).map (·.key)).Nodup
      rw [List.filter_singleton]
      cases changesStored a (Sample.attempt 1 .dispatching) <;> simp
    · simp [Sample.saveDispatch, Sample.dispatch, Sample.FirstAttempt]
    · simp [Sample.saveDispatch, Sample.dispatch, Sample.commit]
    · rintro c hc
      cases hc
      simp [Sample.checkpointRunning, Sample.checkpointWire, Sample.FirstAttempt]
  exact ((((Reaches.start.next Sample.createRun ⟨trivial, trivial⟩).next Sample.acquireLease ⟨trivial, trivial⟩).next _
    hstart).next (Sample.installPolicy "def-a") ⟨trivial, trivial⟩).next _ hsave

theorem saved_checkpoint_exact :
    ∃ a, Sample.saved.runs[(Sample.ownerId, Sample.runId)]? = some a ∧
      a.checkpoint = some Sample.checkpointRunning ∧ SnapshotOf a Sample.checkpointRunning := by
  have hc : (Sample.saved.runs[(Sample.ownerId, Sample.runId)]?.any fun a =>
      a.checkpoint == some Sample.checkpointRunning) = true := by decide +kernel
  obtain ⟨a, ha, hc⟩ := (Option.any_eq_true _ _).mp hc
  exact ⟨a, ha, beq_iff_eq.mp hc, checkpoint_exact Sample.digests Sample.FirstAttempt (fun _ => False)
    firstAttempt_noCollision noCollision_false _ saved_reaches _ _ a ha _ (beq_iff_eq.mp hc)⟩

/-- An attempt that one commit changes twice is not what its checkpoint lists. -/
theorem twice_changed_attempt_escapes_checkpoint :
    ¬∀ (digests : Digests) (S : InvocationAttemptRecord → Prop) (T : CompletedInvocationRecord → Prop),
      NoCollision digests.attempt S → NoCollision digests.completed T → ∀ s : State,
        Reaches (step digests) (fun _ => recordsWithin S T) State.empty s → ∀ (ownerId runId : Uuid) (a : RunAggregate),
          s.runs[(ownerId, runId)]? = some a → ∀ c, a.checkpoint = some c → SnapshotOf a c := by
  intro h
  have hpause : recordsWithin Sample.FirstAttempt (fun _ => False) (.commit Sample.ownerId Sample.savePause 30) := by
    refine ⟨?_, ?_, ?_⟩
    · simp [Sample.savePause, Sample.FirstAttempt]
    · simp [Sample.savePause, Sample.commit]
    · rintro c hc
      cases hc
      simp [Sample.checkpointPaused, Sample.checkpointWire, Sample.FirstAttempt]
  have hbad : ((step Sample.digests Sample.saved (.commit Sample.ownerId Sample.savePause 30)).runs[(Sample.ownerId,
      Sample.runId)]?.any fun a => a.checkpoint == some Sample.checkpointPaused &&
        a.attempts.toList == [((Sample.invocation.id, 1), Sample.attempt 1 .uncertain)]) = true := by decide +kernel
  obtain ⟨a, ha, hbad⟩ := (Option.any_eq_true _ _).mp hbad
  rw [Bool.and_eq_true, beq_iff_eq, beq_iff_eq] at hbad
  have hsnapshot := h Sample.digests Sample.FirstAttempt (fun _ => False) firstAttempt_noCollision noCollision_false _
    ((saved_reaches.mono fun _ _ hop => hop.2).next _ hpause) _ _ a ha _ hbad.1
  have hlisted := hsnapshot.attempts
  rw [hbad.2] at hlisted
  revert hlisted
  decide

end AnimaCore
