import AnimaCore.Execution.Approvals
import AnimaCore.Execution.CheckpointExact
import AnimaCore.Execution.EventLog
import AnimaCore.Execution.Ordering

/-!
# AnimaCore.Execution.RoundTrip — a store is read back from its snapshot

`decode_snapshot_wire` checks again what the live store has to have kept.

* `RunSound`: everything that the decoder checks of one run.  `decodeAggregate_encodeRun` and
  `validateSnapshotRun_eq_ok`: a sound run is read back as it was and passes.
* `StateSound`: the same across the tables; `validateSnapshotState_eq_ok`.
-/

namespace AnimaCore

open Lib

variable {digests : Digests} {s : State} {ownerId runId : Uuid} {a : RunAggregate}

/-! ## One run -/

/-- Everything that the decoder checks of one run. -/
structure RunSound (digests : Digests) (ownerId runId : Uuid) (a : RunAggregate) : Prop where
  keyed : a.stored.ownerId = ownerId ∧ a.stored.run.id = runId
  lease : ∀ lease, a.lease = some lease → lease.validate = .ok () ∧ lease.runId = runId
  log : LogExact ownerId runId a
  ordered : HistoryOrdered a
  inTurn : AttemptsInTurn a
  history : HistoryKeyed runId a
  printed : Printed digests a
  checkpoint : ∀ c, a.checkpoint = some c → Replaced digests a c

theorem lease_of_reaches {allowed : State → Op → Prop} (h : Reaches (step digests) allowed State.empty s)
    (ha : s.runs[(ownerId, runId)]? = some a) (lease : ExecutionLease) (hl : a.lease = some lease) :
    lease.validate = .ok () ∧ lease.runId = runId := by
  refine runs_invariant (P := fun _ runId a => ∀ lease, a.lease = some lease → lease.validate = .ok () ∧
    lease.runId = runId) h ?_ ?_ ?_ ha lease hl
  · intro _ _ stored _ _ _ _ lease hl
    cases hl
  · rintro _ _ _ _ _ hv hr _ ⟨⟩
    exact ⟨hv, hr⟩
  · intro s ownerId commit nowMs patch b _ _ _ hk lease hl
    have hnext : nextLease b.aggregate commit = some lease := b.lease_eq.symm.trans hl
    unfold nextLease at hnext
    split_ifs at hnext
    exact hk lease hnext

/-! ### Steps, attempts and results are read back -/

theorem decodeSteps_encodeRun (h : RunSound digests ownerId runId a) :
    (encodeRun (ownerId, runId) a).steps.foldlM (decodeStep runId) (∅, ∅) = .ok (a.steps, a.stepOrder) := by
  have hstep : ∀ e ∈ listed a.stepOrder a.steps, ∀ acc : Table String Step × Table ℕ String, e.1 ∉ acc.1 →
      e.2.1 ∉ acc.2 → ∃ acc', decodeStep runId acc e = .ok acc' ∧ acc'.1 = acc.1.insert e.1 e.2.2 ∧
        acc'.2 = acc.2.insert e.2.1 e.1 := by
    rintro ⟨k, n, step⟩ he ⟨steps, order⟩ hk hn
    obtain ⟨hplace, hstep⟩ := mem_listed.mp he
    obtain ⟨hid, hrun⟩ := h.history.steps k step hstep
    have hpos := (h.ordered.steps.range n).mp (Table.mem_of_getElem? hplace)
    refine ⟨(steps.insert k step, order.insert n k), ?_, rfl, rfl⟩
    simp only [decodeStep, bind_eq_ok, ensure_eq_ok]
    exact ⟨(), ⟨by omega, hid.symm, hrun⟩, steps.insert k step, if_neg hk, order.insert n k, if_neg hn, rfl⟩
  obtain ⟨⟨steps, order⟩, hfold, hsteps, horder⟩ :=
    h.ordered.steps.read_back Prod.fst Prod.snd (a := (∅, ∅)) rfl rfl hstep
  rw [← hsteps, ← horder]
  exact hfold

theorem encodeRun_attempts (key : Uuid × Uuid) (a : RunAggregate) :
    (encodeRun key a).attempts =
      (listed a.attemptOrder a.attempts).map fun e => (e.1.1, e.1.2, e.2.1, e.2.2) := by
  simp only [encodeRun, listed, List.map_filterMap, Option.map_map]
  rfl

theorem decodeAttempts_encodeRun (h : RunSound digests ownerId runId a) :
    (encodeRun (ownerId, runId) a).attempts.foldlM (decodeAttempt digests runId)
        { attempts := ∅, order := ∅, fingerprint := 0 } =
      .ok { attempts := a.attempts, order := a.attemptOrder, fingerprint := a.attemptsFingerprint } := by
  have hperm : ((listed a.attemptOrder a.attempts).map (·.2.2)).Perm (attemptRecords a.attempts) := by
    have := h.ordered.attempts.listed_perm.map Prod.snd
    rwa [List.map_map] at this
  have hprint := h.printed.attempts
  rw [← xorDigests_perm hperm] at hprint
  rw [encodeRun_attempts, List.foldlM_map]
  have hstep : ∀ e ∈ listed a.attemptOrder a.attempts, ∀ acc : DecodedAttempts, e.1 ∉ acc.attempts →
      e.2.1 ∉ acc.order → ∃ acc', decodeAttempt digests runId acc (e.1.1, e.1.2, e.2.1, e.2.2) = .ok acc' ∧
        acc'.attempts = acc.attempts.insert e.1 e.2.2 ∧ acc'.order = acc.order.insert e.2.1 e.1 := by
    rintro ⟨k, n, r⟩ he acc hk hn
    obtain ⟨hplace, hr⟩ := mem_listed.mp he
    obtain ⟨rfl, hrun⟩ := h.history.attempts k r hr
    have hpos := (h.ordered.attempts.range n).mp (Table.mem_of_getElem? hplace)
    obtain ⟨d, hd⟩ := digest_of_xorDigests hprint (List.mem_map.mpr ⟨_, he, rfl⟩)
    refine ⟨{ attempts := acc.attempts.insert r.key r, order := acc.order.insert n r.key
              fingerprint := acc.fingerprint ^^^ d }, ?_, rfl, rfl⟩
    simp only [decodeAttempt, bind_eq_ok, ensure_eq_ok, toStore_eq_ok, HistoryFingerprint.includeValue_eq_ok]
    refine ⟨(), ⟨by omega, rfl, rfl, hrun⟩, acc.attempts.insert r.key r, ?_, acc.order.insert n r.key, ?_, _,
      ⟨d, hd, rfl⟩, rfl⟩
    · exact if_neg hk
    · exact if_neg hn
  obtain ⟨acc, hfold, hattempts, horder⟩ := h.ordered.attempts.read_back DecodedAttempts.attempts
    DecodedAttempts.order (a := { attempts := ∅, order := ∅, fingerprint := 0 }) rfl rfl hstep
  -- the fingerprint is that of the records read so far
  have hfinger : xorDigests digests.attempt ((listed a.attemptOrder a.attempts).map (·.2.2)) =
      some acc.fingerprint := by
    refine foldlM_induction (P := fun read acc =>
      xorDigests digests.attempt (read.map (·.2.2)) = some acc.fingerprint) hfold rfl ?_
    intro read e _ acc acc' _ hread hstep
    simp only [decodeAttempt, bind_eq_ok, toStore_eq_ok, HistoryFingerprint.includeValue_eq_ok] at hstep
    obtain ⟨_, _, _, _, _, _, _, ⟨d, hd, rfl⟩, hstep⟩ := hstep
    cases hstep
    rw [List.map_append, xorDigests_append_eq_some]
    exact ⟨_, d, hread, xorDigests_cons_eq_some.mpr ⟨d, 0, hd, rfl, by simp⟩, rfl⟩
  rw [hfold, ← hattempts, ← horder, Option.some.inj (hprint.symm.trans hfinger)]

theorem decodeResults_encodeRun (h : RunSound digests ownerId runId a) :
    (encodeRun (ownerId, runId) a).results.foldlM (decodeResult digests runId) (∅, 0) =
      .ok (a.results, a.completedFingerprint) := by
  have hprint := h.printed.completed
  have hstep : ∀ e ∈ a.results.toList, ∀ acc : Table Uuid StoredDurableResult × HistoryFingerprint, e.1 ∉ acc.1 →
      ∃ acc', decodeResult digests runId acc (e.1, e.2.completed, e.2.result) = .ok acc' ∧
        acc'.1 = acc.1.insert e.1 e.2 := by
    rintro ⟨id, stored⟩ he ⟨results, fingerprint⟩ hid
    obtain ⟨rfl, hrun, _⟩ := h.history.results id stored (Table.mem_toList.mp he)
    obtain ⟨d, hd⟩ := digest_of_xorDigests hprint (List.mem_map.mpr ⟨_, he, rfl⟩)
    refine ⟨(results.insert stored.completed.invocation.id stored, fingerprint ^^^ d), ?_, rfl⟩
    simp only [decodeResult, bind_eq_ok, ensure_eq_ok, toStore_eq_ok, HistoryFingerprint.includeValue_eq_ok]
    exact ⟨(), ⟨trivial, hrun⟩, results.insert stored.completed.invocation.id stored, if_neg hid, _, ⟨d, hd, rfl⟩, rfl⟩
  obtain ⟨⟨results, fingerprint⟩, hfold, hresults⟩ := Table.read_back (t := a.results) Prod.fst
    (fun e => (e.1, e.2.completed, e.2.result)) (a := (∅, 0)) rfl hstep
  have hfinger : xorDigests digests.completed
      ((a.results.toList.map fun e => (e.1, e.2.completed, e.2.result)).map (·.2.1)) = some fingerprint := by
    refine foldlM_induction (P := fun read acc =>
      xorDigests digests.completed (read.map (·.2.1)) = some acc.2) hfold rfl ?_
    intro read e _ acc acc' _ hread hstep
    simp only [decodeResult, bind_eq_ok, toStore_eq_ok, HistoryFingerprint.includeValue_eq_ok] at hstep
    obtain ⟨_, _, _, _, _, ⟨d, hd, rfl⟩, hstep⟩ := hstep
    cases hstep
    rw [List.map_append, xorDigests_append_eq_some]
    exact ⟨_, d, hread, xorDigests_cons_eq_some.mpr ⟨d, 0, hd, rfl, by simp⟩, rfl⟩
  rw [List.map_map] at hfinger
  have hsame : fingerprint = a.completedFingerprint := Option.some.inj (hfinger.symm.trans hprint)
  obtain rfl : results = a.results := hresults
  rw [← hsame]
  exact hfold

theorem StoredRun.new_of_parts {stored : StoredRun} (h : stored.ownerId = ownerId) :
    StoredRun.newWithInitialInput
      { ownerId, run := stored.run, runVersion := stored.runVersion, sessionVersion := stored.sessionVersion
        initialInput := stored.initialInput } = .ok stored := by
  rw [← h]
  exact StoredRun.newWithInitialInput_eq_ok.mpr rfl

theorem decodeAggregate_encodeRun (h : RunSound digests ownerId runId a) (hs : SessionsBound s)
    (ha : s.runs[(ownerId, runId)]? = some a) :
    decodeAggregate digests s.sessions (encodeRun (ownerId, runId) a) = .ok a := by
  obtain ⟨session, hsession, hid, hversion, hle⟩ := hs.bound _ _ _ (storedRun_of_runs ha)
  obtain ⟨howner, rfl⟩ := h.keyed
  simp only [decodeAggregate, bind_eq_ok, ensure_eq_ok, okOr_eq_ok]
  exact ⟨a.stored, StoredRun.new_of_parts howner, session, hsession, (), ⟨hid, hversion, hle⟩, _, decodeSteps_encodeRun h, _,
    decodeAttempts_encodeRun h, _, decodeResults_encodeRun h, rfl⟩

/-! ### The checks of a run -/

theorem nextFollows_of_ordered {κ ν : Type} [Ord κ] [Std.TransOrd κ] {order : Table ℕ κ} {t : Table κ ν} {next : ℕ}
    (ho : Ordered order t next) (hfits : next < 2 ^ 64) : nextFollows next order = true := by
  have hpos := ho.pos
  rw [nextFollows, ← Std.ExtTreeMap.maxKey?_eq_getLast?_keys, ho.maxKey?_eq, beq_iff_eq]
  split_ifs with hone
  · rw [hone]
  · rw [checkedAdd_eq_some]
    omega

theorem contiguousKeys_of_ordered {κ ν : Type} [Ord κ] [Std.TransOrd κ] {order : Table ℕ κ} {t : Table κ ν} {next : ℕ}
    (ho : Ordered order t next) : contiguousKeys order = true :=
  beq_iff_eq.mpr ho.keys_eq

theorem InvocationAttemptRecord.number_bounds (r : InvocationAttemptRecord) :
    r.attemptNumber ≠ 0 ∧ r.attemptNumber < 2 ^ 32 := by
  have h := r.valid
  rw [InvocationAttemptRecordWire.validate, ensure_eq_ok] at h
  exact ⟨h.1, h.2.1⟩

/-- The numbers of an invocation that were read are those up to the last one. -/
def NumbersRead (read : List AttemptKey) (last : Table Uuid ℕ) : Prop :=
  ∀ (id : Uuid) n, (id, n) ∈ read ↔ ∃ m, last[id]? = some m ∧ 1 ≤ n ∧ n ≤ m

theorem NumbersRead.in_turn {read : List AttemptKey} {last : Table Uuid ℕ} (h : NumbersRead read last) {id : Uuid}
    {n : ℕ} (hpos : n ≠ 0) (hnew : (id, n) ∉ read) (hturn : n = 1 ∨ priorKey (id, n) ∈ read) :
    (last[id]? = none ∧ n = 1) ∨ ∃ m, last[id]? = some m ∧ m + 1 = n := by
  cases hlast : last[id]? with
  | none =>
    obtain hone | hprior := hturn
    · exact .inl ⟨rfl, hone⟩
    · obtain ⟨m, hm, _⟩ := (h _ _).mp hprior
      rw [hlast] at hm
      cases hm
  | some m =>
    have hnot : ¬n ≤ m := fun hle => hnew ((h id n).mpr ⟨m, hlast, by omega, hle⟩)
    have hprev : n - 1 ≤ m := by
      obtain hone | hprior := hturn
      · omega
      · obtain ⟨m', hm', _, hle⟩ := (h _ _).mp hprior
        rw [hlast] at hm'
        cases hm'
        exact hle
    exact .inr ⟨m, rfl, by omega⟩

theorem NumbersRead.next {read : List AttemptKey} {last : Table Uuid ℕ} (h : NumbersRead read last) {id : Uuid} {n : ℕ}
    (hpos : n ≠ 0) (hturn : (last[id]? = none ∧ n = 1) ∨ ∃ m, last[id]? = some m ∧ m + 1 = n) :
    NumbersRead (read ++ [(id, n)]) (last.insert id n) := by
  intro id' n'
  rw [List.mem_append, List.mem_singleton, Table.getElem?_insert_eq, h]
  split_ifs with hid
  · subst hid
    constructor
    · rintro (⟨m, hm, h1, h2⟩ | heq)
      · obtain ⟨hnone, _⟩ | ⟨m', hm', rfl⟩ := hturn
        · rw [hnone] at hm
          cases hm
        · rw [hm'] at hm
          cases hm
          exact ⟨_, rfl, h1, by omega⟩
      · cases heq
        exact ⟨_, rfl, by omega, le_rfl⟩
    · rintro ⟨_, ⟨⟩, h1, h2⟩
      by_cases heq : n' = n
      · exact .inr (by rw [heq])
      · obtain ⟨_, rfl⟩ | ⟨m, hm, rfl⟩ := hturn
        · omega
        · exact .inl ⟨m, hm, h1, by omega⟩
  · constructor
    · rintro (hold | heq)
      · exact hold
      · exact absurd (Prod.mk.inj heq).1.symm hid
    · exact .inl

theorem attemptNumbers_eq_ok (h : RunSound digests ownerId runId a) :
    ∃ last, (a.attemptOrder.toList.map (·.2)).foldlM (attemptNumberStep a) ∅ = .ok last := by
  refine (foldlM_total (P := NumbersRead) ?_ ?_).imp fun _ hl => hl.1
  · intro id n
    simp
  · rintro read ⟨id, n⟩ post last hsplit hread
    have hmem : (id, n) ∈ a.attemptOrder.toList.map (·.2) := by
      rw [hsplit]
      simp
    obtain ⟨⟨place, _⟩, he, hkey⟩ := List.mem_map.mp hmem
    obtain rfl : _ = (id, n) := hkey
    obtain ⟨r, hr⟩ := Option.isSome_iff_exists.mp (Table.mem_iff_getElem?_isSome.mp
      (h.ordered.attempts.stored place _ (Table.mem_toList.mp he)))
    obtain ⟨hrkey, _⟩ := h.history.attempts _ r hr
    obtain ⟨rfl, rfl⟩ := Prod.mk.inj hrkey
    obtain ⟨hpos, hfits⟩ := r.number_bounds
    obtain ⟨hnew, hroot⟩ := h.inTurn.split h.ordered.attempts hsplit
    have hturn := hread.in_turn hpos hnew hroot
    refine ⟨last.insert r.invocation.id r.attemptNumber, ?_, hread.next hpos hturn⟩
    simp only [attemptNumberStep, bind_eq_ok, ensure_eq_ok, okOr_eq_ok]
    refine ⟨r, hr, (), ?_, rfl⟩
    obtain ⟨hnone, hone⟩ | ⟨m, hm, hsucc⟩ := hturn
    · rw [hnone]
      exact hone
    · rw [hm]
      dsimp only
      rw [checkedAdd_eq_some.mpr ⟨hsucc ▸ hfits, rfl⟩]
      exact hsucc.symm

theorem checkResultLineage_eq_ok (h : RunSound digests ownerId runId a) (entry : Uuid × StoredDurableResult)
    (he : entry ∈ a.results.toList) : checkResultLineage a entry = .ok () := by
  obtain ⟨id, stored⟩ := entry
  obtain ⟨_, _, attempt, hattempt, hcompletes⟩ := h.history.results id stored (Table.mem_toList.mp he)
  simp only [checkResultLineage, bind_eq_ok, ensure_eq_ok, okOr_eq_ok]
  exact ⟨attempt, hattempt, hcompletes⟩

theorem lastSequence_eq_length (h : LogExact ownerId runId a) :
    (a.events.getLast?.map (·.sequence)).getD 0 = a.events.length := by
  cases hlast : a.events.getLast? with
  | none => simp [List.getLast?_eq_none_iff.mp hlast]
  | some e =>
    have hseq := h.batch.sequence_of_getLast? hlast
    have hne : a.events ≠ [] := by
      intro hnil
      rw [hnil] at hlast
      cases hlast
    have hpos := List.length_pos_iff.mpr hne
    simp only [Option.map_some, Option.getD_some]
    omega

theorem checkSnapshotCheckpoint_eq_ok (h : RunSound digests ownerId runId a) {c : CheckpointV1}
    (hc : a.checkpoint = some c) : checkSnapshotCheckpoint digests a c = .ok () := by
  have hr := h.checkpoint c hc
  simp only [checkSnapshotCheckpoint, bind_eq_ok, ensure_eq_ok, toStore_eq_ok]
  refine ⟨(), c.valid, hr.runId, hr.sessionId, hr.definition.1, hr.definition.2, hr.state, ?_, hr.lengths.1,
    hr.lengths.2, hr.attempts, hr.completed, ?_⟩
  · rw [lastSequence_eq_length h.log]
    exact hr.lastSequence
  · cases hcursor : c.cursor with
    | none => rfl
    | some cursor => simpa using hr.cursor cursor hcursor

theorem validateSnapshotRun_eq_ok (h : RunSound digests ownerId runId a) :
    validateSnapshotRun digests ownerId a = .ok () := by
  obtain ⟨last, hnumbers⟩ := attemptNumbers_eq_ok h
  obtain ⟨_, hid⟩ := h.keyed
  simp only [validateSnapshotRun, bind_eq_ok, ensure_eq_ok, forM_eq_ok]
  refine ⟨(), ⟨?_, RuntimeEvent.validateBatch_eq_ok.mpr h.log.batch, ?_, contiguousKeys_of_ordered h.ordered.steps,
    contiguousKeys_of_ordered h.ordered.attempts⟩, last, hnumbers, (), checkResultLineage_eq_ok h, ?_⟩
  · cases hl : a.lease with
    | none => rfl
    | some lease =>
      obtain ⟨hvalid, hrun⟩ := h.lease lease hl
      simp [hvalid, hrun, hid]
  · intro e he
    have hscope := h.log.scope e he
    simp only [RuntimeEvent.scope, Prod.mk.injEq] at hscope
    exact ⟨hscope.1, hscope.2.1, by rw [hid]; exact hscope.2.2⟩
  · cases hc : a.checkpoint with
    | none => rfl
    | some c => exact checkSnapshotCheckpoint_eq_ok h hc

/-! ## Across the tables -/

/-- Everything that the decoder checks of a store. -/
structure StateSound (digests : Digests) (s : State) : Prop where
  runs : ∀ (ownerId runId : Uuid) (a : RunAggregate), s.runs[(ownerId, runId)]? = some a →
    RunSound digests ownerId runId a
  sessions : SessionsBound s
  claims : ClaimsExact s
  aligned : Aligned s
  linked : RecordsLinked digests s
  grants : GrantTables s
  policies : PoliciesKeyed s
  consumptions : ConsumptionsOnce s
  approvals : ApprovalsExact s

theorem checkSnapshotRunClaim_eq_ok (h : StateSound digests s) (entry : (Uuid × Uuid) × RunAggregate)
    (he : entry ∈ s.runs.toList) : checkSnapshotRunClaim s entry = .ok () := by
  obtain ⟨⟨ownerId, runId⟩, a⟩ := entry
  obtain ⟨session, hsession, hheld⟩ := h.claims.held _ _ _ (storedRun_of_runs (Table.mem_toList.mp he))
  simp only [checkSnapshotRunClaim, bind_eq_ok, ensure_eq_ok, okOr_eq_ok]
  refine ⟨session, hsession, ?_⟩
  rintro ⟨hserial, hlive, hnot⟩
  exact hnot (hheld hserial hlive)

theorem checkSnapshotClaim_eq_ok (h : StateSound digests s) (entry : (Uuid × Uuid) × Uuid)
    (he : entry ∈ s.serialClaims.toList) : checkSnapshotClaim s entry = .ok () := by
  obtain ⟨⟨ownerId, sessionId⟩, runId⟩ := entry
  obtain ⟨⟨session, hsession, hserial⟩, stored, hstored, hsid, hlive⟩ :=
    h.claims.live _ _ _ (Table.mem_toList.mp he)
  obtain ⟨a, ha, rfl⟩ := Option.map_eq_some_iff.mp hstored
  simp only [checkSnapshotClaim, bind_eq_ok, ensure_eq_ok, okOr_eq_ok]
  exact ⟨session, hsession, a, ha, hserial, hsid, hlive⟩

theorem Aligned.mem_iff (h : Aligned s) (k : Uuid × Uuid) :
    (k ∈ s.receipts ↔ k ∈ s.outcomes) ∧ (k ∈ s.receipts ↔ k ∈ s.commands) := by
  simp only [Table.mem_iff_getElem?_isSome]
  obtain hu | ⟨receipt, index, outcome, hk⟩ := h k
  · simp [hu.receipt_at, hu.outcome_at, hu.index_at]
  · simp [hk.receipt_at, hk.outcome_at, hk.index_at]

theorem checkSnapshotReceipt_eq_ok (h : StateSound digests s) (entry : (Uuid × Uuid) × CommandReceipt)
    (he : entry ∈ s.receipts.toList) : checkSnapshotReceipt s entry = .ok () := by
  obtain ⟨⟨ownerId, commandId⟩, receipt⟩ := entry
  obtain ⟨index, outcome, hrec⟩ := h.aligned.recorded_of_receipt (Table.mem_toList.mp he)
  have hlinked := h.linked _ _ _ hrec.index_at hrec.outcome_at
  obtain ⟨a, ha, hsid, hrv, hsv, hcv⟩ := hlinked.stored
  simp only [checkSnapshotReceipt, bind_eq_ok, ensure_eq_ok, okOr_eq_ok]
  refine ⟨outcome, hrec.outcome_at, index, hrec.index_at, a, ha, (), ⟨hrec.receipt_eq, hrec.digest_eq,
    hlinked.run.1, hlinked.run.2, hlinked.owner.2, hsid, hrv, hsv, hcv⟩, ?_⟩
  cases hc : outcome.grantConsumption with
  | none => rfl
  | some c =>
    rw [Option.all_some, beq_iff_eq]
    have hspent := hlinked.consumed c hc
    exact KeySet.countP_eq_one hspent (consumptionMatches_spentKey c) fun key hkey hm =>
      h.consumptions.once c ownerId key hkey _ hspent hm (consumptionMatches_spentKey c)

theorem checkSnapshotApproval_eq_ok (h : StateSound digests s) (entry : (Uuid × Uuid) × ApprovalIndexRecord)
    (he : entry ∈ s.approvals.toList) : checkSnapshotApproval s entry = .ok () := by
  obtain ⟨⟨ownerId, approvalId⟩, record⟩ := entry
  obtain ⟨_, hwindow, hstatus⟩ := h.approvals _ _ (Table.mem_toList.mp he)
  simp only [checkSnapshotApproval, bind_eq_ok, ensure_eq_ok, okOr_eq_ok]
  obtain ⟨a, request, ha, hp, hid, hr⟩ | ⟨commandId, decision, receipt, index, outcome, hid, hv, happrove, hr, hrec, hrun,
    hmem⟩ := hstatus
  · refine ⟨a, ha, (), hwindow, ?_⟩
    have hrunId := Run.pendingApproval_runId hp
    rw [(h.runs _ _ a ha).keyed.2] at hrunId
    have hwaiting := a.stored.run.waiting_iff.mpr (by rw [hp]; rfl)
    rw [hr]
    simp only [ApprovalIndexRecord.ofRequest, ensure_eq_ok, hp, Option.any_some]
    exact ⟨hwaiting, by simp [hid, hrunId]⟩
  · obtain ⟨a, ha⟩ := Option.isSome_iff_exists.mp (Table.mem_iff_getElem?_isSome.mp hmem)
    refine ⟨a, ha, (), hwindow, ?_⟩
    obtain ⟨_, hle, hlt⟩ := ApprovalDecision.validate_eq_ok hv
    rw [hr]
    simp only [ApprovalIndexRecord.ofDecision, happrove, ensure_eq_ok]
    refine ⟨hid, hle, hlt, Table.mem_of_getElem? hrec.receipt_at, ?_⟩
    rw [hrec.outcome_at]
    simp [hrun]

theorem validateSnapshotState_eq_ok (h : StateSound digests s) : validateSnapshotState s = .ok () := by
  simp only [validateSnapshotState, bind_eq_ok, ensure_eq_ok, forM_eq_ok]
  exact ⟨(), checkSnapshotRunClaim_eq_ok h, (), checkSnapshotClaim_eq_ok h, (),
    ⟨Table.size_eq_of_mem_iff fun k => (h.aligned.mem_iff k).1, Table.size_eq_of_mem_iff fun k => (h.aligned.mem_iff k).2⟩,
    (), checkSnapshotReceipt_eq_ok h, (), fun key hkey => h.consumptions.formed key (Std.ExtTreeSet.mem_toList.mp hkey),
    checkSnapshotApproval_eq_ok h⟩

/-! ### The tables are read back -/

theorem insertNew_eq_ok {κ ν : Type} [Ord κ] [Std.TransOrd κ] {t : Table κ ν} {k : κ} (hk : k ∉ t) (v : ν) :
    insertNew t k v = .ok (t.insert k v) := if_neg hk

theorem decodeSessions (h : StateSound digests s) (k : BitVec 128) :
    (encodeSnapshot s k).sessions.foldlM decodeSession ∅ = .ok s.sessions := by
  refine Table.foldlM_toList ?_
  rintro ⟨⟨ownerId, sessionId⟩, session⟩ he t hnew
  obtain ⟨ho, hi, hv, howner⟩ := h.sessions.keyed _ _ (Table.mem_toList.mp he)
  obtain ⟨version, sessionOwner, definition, policy⟩ := session
  obtain rfl : sessionOwner = ownerId := howner
  simp only [decodeSession, bind_eq_ok, ensure_eq_ok]
  exact ⟨(), ⟨ho, hi, hv⟩, insertNew_eq_ok hnew _⟩

theorem decodeRuns (h : StateSound digests s) (k : BitVec 128) :
    (encodeSnapshot s k).runs.foldlM (decodeRun digests s.sessions) ∅ = .ok s.runs := by
  refine Table.foldlM_toList ?_
  rintro ⟨⟨ownerId, runId⟩, a⟩ he t hnew
  have ha := Table.mem_toList.mp he
  have hsound := h.runs _ _ a ha
  obtain ⟨_, rfl⟩ := hsound.keyed
  simp only [decodeRun, bind_eq_ok, ensure_eq_ok]
  exact ⟨a, decodeAggregate_encodeRun hsound h.sessions ha, (),
    ⟨nextFollows_of_ordered hsound.ordered.steps hsound.ordered.fits.1,
      nextFollows_of_ordered hsound.ordered.attempts hsound.ordered.fits.2, validateSnapshotRun_eq_ok hsound⟩,
    insertNew_eq_ok hnew _⟩

theorem decodeClaims (h : StateSound digests s) (k : BitVec 128) :
    (encodeSnapshot s k).serialClaims.foldlM (decodeClaim s.runs) ∅ = .ok s.serialClaims := by
  refine Table.foldlM_toList ?_
  rintro ⟨⟨ownerId, sessionId⟩, runId⟩ he t hnew
  obtain ⟨_, _, hstored, _⟩ := h.claims.live _ _ _ (Table.mem_toList.mp he)
  obtain ⟨a, ha, _⟩ := Option.map_eq_some_iff.mp hstored
  simp only [decodeClaim, bind_eq_ok, ensure_eq_ok]
  exact ⟨(), Table.mem_of_getElem? ha, insertNew_eq_ok hnew _⟩

theorem decodeReceipts (h : StateSound digests s) (k : BitVec 128) :
    (encodeSnapshot s k).receipts.foldlM
      (fun receipts entry => insertNew receipts (entry.1, entry.2.commandId) entry.2) ∅ = .ok s.receipts := by
  refine Table.foldlM_toList ?_
  rintro ⟨⟨ownerId, commandId⟩, receipt⟩ he t hnew
  obtain ⟨_, _, hrec⟩ := h.aligned.recorded_of_receipt (Table.mem_toList.mp he)
  obtain rfl : receipt.commandId = commandId := hrec.id_eq
  exact insertNew_eq_ok hnew _

theorem decodeCommands (h : StateSound digests s) (k : BitVec 128) :
    (encodeSnapshot s k).commands.foldlM decodeCommand ∅ = .ok s.commands := by
  refine Table.foldlM_toList ?_
  rintro ⟨⟨ownerId, commandId⟩, index⟩ he t hnew
  have hi := Table.mem_toList.mp he
  obtain hu | ⟨_, _, outcome, hrec⟩ := h.aligned (ownerId, commandId)
  · rw [hu.index_at] at hi
    cases hi
  · obtain ⟨⟨howner, _⟩, ⟨hid, hsid, hrid, hdigest⟩, _⟩ := h.linked _ _ _ hi hrec.outcome_at
    simp only [decodeCommand, bind_eq_ok, ensure_eq_ok]
    exact ⟨(), ⟨howner, hid, hsid, hrid, hdigest⟩, insertNew_eq_ok hnew _⟩

theorem decodeOutcomes (h : StateSound digests s) (k : BitVec 128) :
    (encodeSnapshot s k).outcomes.foldlM decodeOutcome ∅ = .ok s.outcomes := by
  refine Table.foldlM_toList ?_
  rintro ⟨⟨ownerId, commandId⟩, outcome⟩ he t hnew
  have ho := Table.mem_toList.mp he
  obtain hu | ⟨receipt, index, _, hrec⟩ := h.aligned (ownerId, commandId)
  · rw [hu.outcome_at] at ho
    cases ho
  · rw [Option.some.inj (hrec.outcome_at.symm.trans ho)] at hrec
    have howner := (h.linked _ _ _ hrec.index_at ho).owner.2
    have hid : commandId = outcome.receipt.commandId := by
      rw [hrec.receipt_eq]
      exact hrec.id_eq.symm
    simp only [decodeOutcome, bind_eq_ok, ensure_eq_ok]
    exact ⟨outcome.storedRun, StoredRun.new_of_parts howner, (), hid, insertNew_eq_ok hnew _⟩

theorem decodeGrants (h : StateSound digests s) (k : BitVec 128) :
    (encodeSnapshot s k).authoritativeGrants.foldlM (fun grants g => insertNew grants g.tableKey g) ∅ =
      .ok s.authoritativeGrants := by
  refine Table.foldlM_toList ?_
  rintro ⟨⟨ownerId, key⟩, g⟩ he t hnew
  obtain ⟨rfl, rfl⟩ := h.grants.keyed _ _ _ (Table.mem_toList.mp he)
  exact insertNew_eq_ok hnew _

theorem decodePolicies (h : StateSound digests s) (k : BitVec 128) :
    (encodeSnapshot s k).authoritativePolicies.foldlM (fun policies p => insertNew policies p.tableKey p) ∅ =
      .ok s.authoritativePolicies := by
  refine Table.foldlM_toList ?_
  rintro ⟨key, p⟩ he t hnew
  obtain rfl : p.tableKey = key := h.policies _ _ (Table.mem_toList.mp he)
  exact insertNew_eq_ok hnew _

theorem decodeApprovals (h : StateSound digests s) (k : BitVec 128) :
    (encodeSnapshot s k).approvals.foldlM decodeApproval ∅ = .ok s.approvals := by
  refine Table.foldlM_toList ?_
  rintro ⟨⟨ownerId, approvalId⟩, record⟩ he t hnew
  obtain ⟨hids, _⟩ := h.approvals _ _ (Table.mem_toList.mp he)
  simp only [decodeApproval, bind_eq_ok, ensure_eq_ok]
  exact ⟨(), hids, insertNew_eq_ok hnew _⟩

theorem decodeSnapshotWire_encodeSnapshot (h : StateSound digests s) {k : BitVec 128} (hk : k ≠ 0#128) :
    decodeSnapshotWire digests (encodeSnapshot s k) = .ok (s, k) := by
  simp only [decodeSnapshotWire, bind_eq_ok, ensure_eq_ok]
  exact ⟨(), ⟨rfl, hk⟩, _, decodeSessions h k, _, decodeRuns h k, _, decodeClaims h k, _, decodeReceipts h k, _,
    decodeCommands h k, _, decodeOutcomes h k, _, decodeGrants h k, _, decodePolicies h k, _,
    KeySet.foldlM_toList fun _ _ hnew => if_neg hnew, _, decodeApprovals h k, (), validateSnapshotState_eq_ok h, rfl⟩

/-! ## Every reached store -/

/-- What the decoder checks and the commit does not: the log is continued, no stored record is changed twice, attempts
are added in turn, consumptions of one revision are for different invocations, and requests name an invocation and a
window. -/
def snapshotSafe (s : State) (op : Op) : Prop :=
  continuesLog s op ∧ changesOnce s op ∧ addsInTurn s op ∧ consumesOnce s op ∧ requestsInWindow op

theorem stateSound_of_reaches (h : Reaches (step digests) snapshotSafe State.empty s) : StateSound digests s where
  runs _ _ _ ha :=
    { keyed := run_keyed h ha
      lease := lease_of_reaches h ha
      log := logExact_of_reaches (h.mono fun _ _ hop => hop.1) ha
      ordered := historyOrdered_of_reaches h ha
      inTurn := attemptsInTurn_of_reaches (h.mono fun _ _ hop => hop.2.2.1) ha
      history := historyKeyed_of_reaches h ha
      printed := printed_of_reaches (h.mono fun _ _ hop => hop.2.1) ha
      checkpoint := fun _ hc => replaced_of_reaches h ha hc }
  sessions := sessionsBound_of_reaches h
  claims := claimsExact_of_reaches h
  aligned := aligned_of_reaches h
  linked := recordsLinked_of_reaches h
  grants := grantTables_of_reaches h
  policies := policiesKeyed_of_reaches h
  consumptions := consumptionsOnce_of_reaches (h.mono fun _ _ hop => hop.2.2.2.1)
  approvals := approvalsExact_of_reaches (h.mono fun _ _ hop => hop.2.2.2.2)

/-- **Snapshot round trip**: in every run whose calls meet `snapshotSafe`, the store is read back from its snapshot as
it was, with its cursor key. -/
theorem snapshot_round_trip (digests : Digests) (s : State) (h : Reaches (step digests) snapshotSafe State.empty s)
    (k : BitVec 128) (hk : k ≠ 0#128) : decodeSnapshotWire digests (encodeSnapshot s k) = .ok (s, k) :=
  decodeSnapshotWire_encodeSnapshot (stateSound_of_reaches h) hk

theorem snapshot_of_started :
    decodeSnapshotWire Sample.digests (encodeSnapshot Sample.started 1#128) = .ok (Sample.started, 1#128) := by
  have hstart : snapshotSafe (run (step Sample.digests) State.empty [Sample.createRun, Sample.acquireLease])
      (.commit Sample.ownerId Sample.start 10) := by
    refine ⟨?_, ?_, ?_, ?_, ?_⟩
    · intro a _ e he
      simp [Sample.start, Sample.commit] at he
    · exact fun a _ => List.nodup_nil
    · intro a _ pre r post hsplit
      simp [Sample.start, Sample.commit] at hsplit
    · rintro c ⟨⟩
    · rintro request ⟨⟩
  have hreach : Reaches (step Sample.digests) snapshotSafe State.empty Sample.started :=
    ((Reaches.start.next Sample.createRun ⟨trivial, trivial, trivial, trivial, trivial⟩).next Sample.acquireLease
      ⟨trivial, trivial, trivial, trivial, trivial⟩).next _ hstart
  exact snapshot_round_trip Sample.digests Sample.started hreach 1#128 (by decide)

/-- A run that starts with the second attempt of an invocation is not read back. -/
theorem second_attempt_first_not_read_back :
    ¬∀ (digests : Digests) (s : State), Reaches (step digests) anyInput State.empty s → ∀ k : BitVec 128, k ≠ 0#128 →
      decodeSnapshotWire digests (encodeSnapshot s k) = .ok (s, k) := by
  intro h
  have hbad : (decodeSnapshotWire Sample.digests (encodeSnapshot (run (step Sample.digests) State.empty
      [Sample.createRun, Sample.acquireLease, .commit Sample.ownerId
        { Sample.start with attempts := [Sample.attempt 2 .pending] } 10]) 1#128)).isOk = false := by decide +kernel
  rw [h Sample.digests _ (reaches_run _) 1#128 (by decide)] at hbad
  cases hbad

end AnimaCore
