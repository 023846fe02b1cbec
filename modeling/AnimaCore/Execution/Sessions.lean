import AnimaCore.Execution.Transitions

/-!
# AnimaCore.Execution.Sessions — serial sessions run one run at a time

`create_run` and `retry_run` take the claim of a serial session, and a commit whose target is terminal releases it.

* `ClaimsExact`: every run has its session, a non-terminal run of a serial session holds the claim, and a claim is
  held by a non-terminal run of a serial session.
* `SessionsBound`: sessions are stored under their owner, and every run has its session.
-/

namespace AnimaCore

open Lib

variable {digests : Digests} {s s' : State} {ownerId sessionId runId : Uuid} {op : Op}

/-- Claims and non-terminal runs of serial sessions are the same thing. -/
structure ClaimsExact (s : State) : Prop where
  held : ∀ ownerId runId stored, s.storedRun (ownerId, runId) = some stored →
    ∃ session, s.sessions[(ownerId, stored.run.sessionId)]? = some session ∧
      (session.policy = .serial → stored.run.state.isTerminal = false →
        s.serialClaims[(ownerId, stored.run.sessionId)]? = some runId)
  live : ∀ ownerId sessionId runId, s.serialClaims[(ownerId, sessionId)]? = some runId →
    (∃ session, s.sessions[(ownerId, sessionId)]? = some session ∧ session.policy = .serial) ∧
      ∃ stored, s.storedRun (ownerId, runId) = some stored ∧ stored.run.sessionId = sessionId ∧
        stored.run.state.isTerminal = false

theorem claimsExact_empty : ClaimsExact State.empty := by
  constructor
  · intro ownerId runId stored h
    simp at h
  · intro ownerId sessionId runId h
    simp [State.empty] at h

theorem ClaimsExact.congr (h : ClaimsExact s) (hs : s'.sessions = s.sessions) (hc : s'.serialClaims = s.serialClaims)
    (hr : ∀ k, s'.storedRun k = s.storedRun k) : ClaimsExact s' := by
  constructor
  · intro ownerId runId stored hst
    rw [hs, hc]
    exact h.held ownerId runId stored (by rwa [← hr])
  · intro ownerId sessionId runId hcl
    rw [hs, hr]
    exact h.live ownerId sessionId runId (by rwa [← hc])

theorem ClaimsExact.add_run (h : ClaimsExact s) (ownerId runId : Uuid) (session : StoredSession) (stored : StoredRun)
    (hpolicy : ∀ before, s.sessions[(ownerId, stored.run.sessionId)]? = some before → before.policy = session.policy)
    (hfree : session.policy = .serial → (ownerId, stored.run.sessionId) ∉ s.serialClaims)
    (hnew : s.storedRun (ownerId, runId) = none) (hqueued : stored.run.state = .queued)
    (hs : s'.sessions = s.sessions.insert (ownerId, stored.run.sessionId) session)
    (hc : s'.serialClaims = if session.policy = .serial
      then s.serialClaims.insert (ownerId, stored.run.sessionId) runId else s.serialClaims)
    (hr : ∀ k, s'.storedRun k = if (ownerId, runId) = k then some stored else s.storedRun k) : ClaimsExact s' := by
  constructor
  · intro o r st hst
    rw [hr] at hst
    split_ifs at hst with hkey
    · cases hst
      cases hkey
      refine ⟨session, by simp [hs], fun hp _ => ?_⟩
      simp [hc, hp]
    · obtain ⟨before, hb, hheld⟩ := h.held o r st hst
      by_cases hsess : (ownerId, stored.run.sessionId) = (o, st.run.sessionId)
      · -- another run of the same session: a serial session was unclaimed, so it is terminal
        refine ⟨session, by simp [hs, hsess], fun hp hlive => ?_⟩
        have hclaim := hheld ((hpolicy before (by rw [hsess]; exact hb)).trans hp) hlive
        rw [← hsess] at hclaim
        exact absurd (Table.mem_of_getElem? hclaim) (hfree hp)
      · refine ⟨before, by simpa [hs, Table.getElem?_insert_eq, hsess] using hb, fun hp hlive => ?_⟩
        rw [hc]
        split_ifs with hserial
        · rw [Table.getElem?_insert_eq, if_neg hsess]
          exact hheld hp hlive
        · exact hheld hp hlive
  · intro o sid r hcl
    rw [hc] at hcl
    split_ifs at hcl with hserial
    · rw [Table.getElem?_insert_eq] at hcl
      split_ifs at hcl with hkey
      · cases hcl
        cases hkey
        refine ⟨⟨session, by simp [hs], hserial⟩, stored, by simp [hr], rfl, ?_⟩
        rw [hqueued]
        rfl
      · obtain ⟨⟨before, hb, hp⟩, st, hst, hrest⟩ := h.live o sid r hcl
        have hrun : (ownerId, runId) ≠ (o, r) := by
          rintro heq
          rw [← heq, hnew] at hst
          cases hst
        exact ⟨⟨before, by rw [hs, Table.getElem?_insert_eq, if_neg hkey]; exact hb, hp⟩, st,
          by rw [hr, if_neg hrun]; exact hst, hrest⟩
    · obtain ⟨⟨before, hb, hp⟩, st, hst, hrest⟩ := h.live o sid r hcl
      have hrun : (ownerId, runId) ≠ (o, r) := by
        rintro heq
        rw [← heq, hnew] at hst
        cases hst
      -- the session of the new run is concurrent, the claimed one is serial
      have hsess : (ownerId, stored.run.sessionId) ≠ (o, sid) := by
        rintro heq
        exact hserial ((hpolicy before (by rw [heq]; exact hb)).symm.trans hp)
      exact ⟨⟨before, by rw [hs, Table.getElem?_insert_eq, if_neg hsess]; exact hb, hp⟩, st,
        by rw [hr, if_neg hrun]; exact hst, hrest⟩

theorem Built.session_after {commit : ExecutionCommit} {nowMs : ℕ} {patch : CommitPatch}
    (b : Built digests s ownerId commit nowMs patch) (outcome : ExecutionCommitOutcome) {k : Uuid × Uuid}
    {session : StoredSession} (hk : s.sessions[k]? = some session) :
    ∃ after, (applyCommitPatch s ownerId commit.lease.runId patch outcome).sessions[k]? = some after ∧
      after.policy = session.policy ∧ after.definition = session.definition ∧ after.ownerId = session.ownerId ∧
      session.version ≤ after.version := by
  obtain ⟨_, hu, _⟩ | ⟨_, hu, _⟩ := b.session_cases
  · simp only [applyCommitPatch, hu, Table.getElem?_insert_eq]
    split_ifs with hkey
    · have hsame : b.session = session := by
        have hfound := b.session_eq
        rw [b.same_run.2.1, ← b.stored_run, hkey, hk] at hfound
        exact (Option.some.inj hfound).symm
      subst hsame
      exact ⟨_, rfl, rfl, rfl, rfl, by simp⟩
    · exact ⟨session, hk, rfl, rfl, rfl, le_rfl⟩
  · exact ⟨session, by simpa [applyCommitPatch, hu] using hk, rfl, rfl, rfl, le_rfl⟩

theorem ClaimsExact.commit {commit : ExecutionCommit} {nowMs : ℕ} {patch : CommitPatch} (h : ClaimsExact s)
    (b : Built digests s ownerId commit nowMs patch) (outcome : ExecutionCommitOutcome) :
    ClaimsExact (applyCommitPatch s ownerId commit.lease.runId patch outcome) := by
  have hstored := storedRun_of_runs b.found
  have hsid : b.aggregate.stored.run.sessionId = commit.targetRun.sessionId := b.same_run.2.1
  have hlive : b.aggregate.stored.run.state.isTerminal = false := b.same_run.2.2.2.2.2.2
  -- the claim of the committed run, if its session is serial
  obtain ⟨before, hbefore, hclaim⟩ := h.held _ _ _ hstored
  rw [hsid] at hbefore hclaim
  have hclaims : ∀ k : Uuid × Uuid, (applyCommitPatch s ownerId commit.lease.runId patch outcome).serialClaims[k]? =
      if commit.targetRun.state.isTerminal = true ∧ (ownerId, commit.targetRun.sessionId) = k ∧
        s.serialClaims[k]? = some commit.lease.runId then none else s.serialClaims[k]? := by
    intro k
    obtain ⟨⟨ht, hc⟩, hu, _⟩ | ⟨hn, hu, _⟩ := b.session_cases
    · simp only [applyCommitPatch, b.release_eq, hu, Option.isSome_some, if_true, Table.getElem?_erase_eq, b.stored_run]
      by_cases hk : (ownerId, commit.targetRun.sessionId) = k
      · subst hk
        simp [ht, hc]
      · simp [hk]
    · simp only [applyCommitPatch, b.release_eq, hu, Option.isSome_none, Bool.false_eq_true, if_false]
      rw [if_neg]
      rintro ⟨ht, rfl, hc⟩
      exact hn ⟨ht, hc⟩
  constructor
  · intro o r st hst
    rw [b.storedRun_after] at hst
    split_ifs at hst with hkey
    · cases hst
      cases hkey
      rw [b.stored_run]
      obtain ⟨after, hafter, hpol, _⟩ := b.session_after outcome hbefore
      refine ⟨after, hafter, fun hp hl => ?_⟩
      rw [hclaims, if_neg (by simp [hl])]
      exact hclaim (hpol ▸ hp) hlive
    · obtain ⟨session, hsess, hheld⟩ := h.held o r st hst
      obtain ⟨after, hafter, hpol, _⟩ := b.session_after outcome hsess
      refine ⟨after, hafter, fun hp hl => ?_⟩
      have hheld := hheld (hpol ▸ hp) hl
      rw [hclaims, if_neg]
      · exact hheld
      · -- a claim of another run is not the committed run's
        rintro ⟨_, hk, hc⟩
        rw [hheld] at hc
        rw [Prod.mk.injEq] at hk
        exact hkey (Prod.ext hk.1 (Option.some.inj hc).symm)
  · intro o sid r hcl
    rw [hclaims] at hcl
    split_ifs at hcl with hdrop
    obtain ⟨⟨session, hsess, hp⟩, st, hst, hsid', hl⟩ := h.live o sid r hcl
    obtain ⟨after, hafter, hpol, _⟩ := b.session_after outcome hsess
    refine ⟨⟨after, hafter, hpol.trans hp⟩, ?_⟩
    rw [b.storedRun_after]
    split_ifs with hkey
    · cases hkey
      rw [hstored] at hst
      cases hst
      refine ⟨_, rfl, by rw [b.stored_run, ← hsid, hsid'], ?_⟩
      -- the claim was kept, so the target is not terminal
      rw [b.stored_run]
      by_contra hterm
      exact hdrop ⟨by simpa using hterm, by rw [← hsid, hsid'], hcl⟩
    · exact ⟨st, hst, hsid', hl⟩

theorem claimsExact_of_accepted (h : ClaimsExact s) (hacc : Accepted digests s op s') : ClaimsExact s' := by
  cases hacc with
  | applyPolicy _ _ => exact h.congr rfl rfl fun _ => rfl
  | applyGrant _ _ => exact h.congr rfl rfl fun _ => rfl
  | @createRun ownerId request version stored hc hst =>
    have hchecked := checkCreateRun_eq_ok hc
    have hsid : stored.run.sessionId = request.session.id := by rw [hst]; exact hchecked.session_eq
    refine h.add_run ownerId request.run.id
      { version, ownerId := request.ownerId, definition := request.session.definition
        policy := request.concurrencyPolicy } stored ?_ ?_ (storedRun_eq_none hchecked.unseen) ?_ ?_ ?_ ?_
    · intro before hb
      exact (hchecked.existing before (hsid ▸ hb)).2.2
    · intro hp
      rw [hsid]
      exact hchecked.unclaimed hp
    · rw [hst]
      exact hchecked.queued
    · rw [hsid]
      rfl
    · rw [hsid]
      rfl
    · simp
  | @retryRun ownerId request source command session stored hs hu hc =>
    have hchecked := checkRetryRun_eq_ok hs hc
    have hsid : stored.run.sessionId = source.stored.run.sessionId := by rw [hchecked.stored_run]
    obtain ⟨before, hbefore, hsession, _⟩ := hchecked.existing
    refine h.add_run ownerId request.newRunId session stored
      ?_ ?_ (storedRun_eq_none hchecked.unseen) (congrArg RunWire.state hchecked.stored_run) ?_ ?_ ?_
    · intro before' hb
      rw [hsid, hbefore] at hb
      cases hb
      rw [hsession]
    · intro hp
      rw [hsid]
      exact hchecked.unclaimed hp
    · rw [hsid]
      rfl
    · rw [hsid]
      rfl
    · simp
  | acquireLease _ => exact h.congr rfl rfl fun k => storedRun_setLease _ k
  | renewLease _ => exact h.congr rfl rfl fun k => storedRun_setLease _ k
  | commit hcom =>
    obtain ⟨b⟩ := buildCommitPatch_eq_ok hcom.built
    exact h.commit b _

theorem claimsExact_of_reaches {allowed : State → Op → Prop} (h : Reaches (step digests) allowed State.empty s) :
    ClaimsExact s :=
  invariant_of_accepted h claimsExact_empty fun _ _ _ _ hp _ hacc => claimsExact_of_accepted hp hacc

/-- **Serial sessions run one run at a time.** -/
theorem serial_claims_exact (digests : Digests) (s : State) (h : Reaches (step digests) anyInput State.empty s)
    (ownerId sessionId : Uuid) (session : StoredSession) (hs : s.sessions[(ownerId, sessionId)]? = some session) :
    (session.policy = .serial →
      (∀ runId, s.serialClaims[(ownerId, sessionId)]? = some runId ↔
        ∃ a : RunAggregate, s.runs[(ownerId, runId)]? = some a ∧ a.stored.run.sessionId = sessionId ∧
          a.stored.run.state.isTerminal = false) ∧
      ∀ (r₁ r₂ : Uuid) (a₁ a₂ : RunAggregate), s.runs[(ownerId, r₁)]? = some a₁ → s.runs[(ownerId, r₂)]? = some a₂ →
        a₁.stored.run.sessionId = sessionId → a₂.stored.run.sessionId = sessionId →
        a₁.stored.run.state.isTerminal = false → a₂.stored.run.state.isTerminal = false → r₁ = r₂) ∧
    (session.policy = .concurrent → s.serialClaims[(ownerId, sessionId)]? = none) := by
  have hinv := claimsExact_of_reaches h
  -- a non-terminal run of a serial session holds its claim
  have hheld : ∀ (r : Uuid) (a : RunAggregate), session.policy = .serial → s.runs[(ownerId, r)]? = some a → a.stored.run.sessionId = sessionId →
      a.stored.run.state.isTerminal = false → s.serialClaims[(ownerId, sessionId)]? = some r := by
    intro r a hp ha hsid hl
    obtain ⟨session', hs', hclaim⟩ := hinv.held _ _ _ (storedRun_of_runs ha)
    rw [hsid, hs] at hs'
    cases hs'
    rw [← hsid]
    exact hclaim hp hl
  refine ⟨fun hp => ⟨fun runId => ⟨?_, ?_⟩, ?_⟩, ?_⟩
  · intro hc
    obtain ⟨_, stored, hst, hrest⟩ := hinv.live _ _ _ hc
    obtain ⟨a, ha, rfl⟩ := Option.map_eq_some_iff.mp hst
    exact ⟨a, ha, hrest⟩
  · rintro ⟨a, ha, hsid, hl⟩
    exact hheld runId a hp ha hsid hl
  · intro r₁ r₂ a₁ a₂ h₁ h₂ hs₁ hs₂ hl₁ hl₂
    have hc₁ := hheld r₁ a₁ hp h₁ hs₁ hl₁
    have hc₂ := hheld r₂ a₂ hp h₂ hs₂ hl₂
    exact Option.some.inj (hc₁.symm.trans hc₂)
  · intro hp
    cases hc : s.serialClaims[(ownerId, sessionId)]? with
    | none => rfl
    | some runId =>
      obtain ⟨⟨session', hs', hserial⟩, _⟩ := hinv.live _ _ _ hc
      rw [hs] at hs'
      cases hs'
      rw [hp] at hserial
      cases hserial

theorem started_claim_exact :
    ∃ a : RunAggregate, Sample.started.runs[(Sample.ownerId, Sample.runId)]? = some a ∧
      a.stored.run.sessionId = Sample.sessionId ∧ a.stored.run.state.isTerminal = false := by
  have hs : Sample.started.sessions[(Sample.ownerId, Sample.sessionId)]? =
      some { version := 1, ownerId := Sample.ownerId, definition := Sample.definition, policy := .serial } := by
    decide +kernel
  have hclaim : Sample.started.serialClaims[(Sample.ownerId, Sample.sessionId)]? = some Sample.runId := by
    decide +kernel
  exact (((serial_claims_exact Sample.digests Sample.started (reaches_run _) _ _ _ hs).1 rfl).1 Sample.runId).mp hclaim

/-! ## Sessions and their runs -/

/-- Sessions are stored under their owner, and every run has its session, of its definition and at least its version. -/
structure SessionsBound (s : State) : Prop where
  keyed : ∀ (k : Uuid × Uuid) session, s.sessions[k]? = some session →
    isNil k.1 = false ∧ isNil k.2 = false ∧ session.version ≠ 0 ∧ session.ownerId = k.1
  bound : ∀ ownerId runId stored, s.storedRun (ownerId, runId) = some stored →
    ∃ session, s.sessions[(ownerId, stored.run.sessionId)]? = some session ∧
      stored.run.definitionId = session.definition.id ∧ stored.run.definitionVersion = session.definition.version ∧
      stored.sessionVersion ≤ session.version

theorem sessionsBound_empty : SessionsBound State.empty := by
  constructor
  · intro k session h
    simp [State.empty] at h
  · intro ownerId runId stored h
    simp at h

theorem SessionsBound.congr (h : SessionsBound s) (hs : s'.sessions = s.sessions)
    (hr : ∀ k, s'.storedRun k = s.storedRun k) : SessionsBound s' := by
  constructor
  · rw [hs]
    exact h.keyed
  · intro ownerId runId stored hst
    rw [hs]
    exact h.bound ownerId runId stored (by rwa [← hr])

theorem SessionsBound.write (h : SessionsBound s) (k : Uuid × Uuid) (session : StoredSession)
    (hkey : isNil k.1 = false ∧ isNil k.2 = false ∧ session.version ≠ 0 ∧ session.ownerId = k.1)
    (hgrow : ∀ before, s.sessions[k]? = some before →
      before.definition = session.definition ∧ before.version ≤ session.version)
    (hs : s'.sessions = s.sessions.insert k session)
    (hr : ∀ o r stored, s'.storedRun (o, r) = some stored → s.storedRun (o, r) = some stored ∨
      ((o, stored.run.sessionId) = k ∧ stored.run.definitionId = session.definition.id ∧
        stored.run.definitionVersion = session.definition.version ∧ stored.sessionVersion ≤ session.version)) :
    SessionsBound s' := by
  constructor
  · intro k' session' hk'
    rw [hs, Table.getElem?_insert_eq] at hk'
    split_ifs at hk' with heq
    · cases hk'
      exact heq ▸ hkey
    · exact h.keyed k' session' hk'
  · intro o r stored hst
    rw [hs, Table.getElem?_insert_eq]
    obtain hold | ⟨hin, hdef⟩ := hr o r stored hst
    · obtain ⟨before, hb, hid, hversion, hle⟩ := h.bound o r stored hold
      split_ifs with heq
      · obtain ⟨hsame, hgrown⟩ := hgrow before (heq ▸ hb)
        exact ⟨session, rfl, hsame ▸ hid, hsame ▸ hversion, hle.trans hgrown⟩
      · exact ⟨before, hb, hid, hversion, hle⟩
    · rw [if_pos hin.symm]
      exact ⟨session, rfl, hdef⟩

theorem SessionsBound.commit {commit : ExecutionCommit} {nowMs : ℕ} {patch : CommitPatch} (h : SessionsBound s)
    (b : Built digests s ownerId commit nowMs patch) (outcome : ExecutionCommitOutcome) :
    SessionsBound (applyCommitPatch s ownerId commit.lease.runId patch outcome) := by
  have hfound := b.session_eq
  obtain ⟨session, hsession, hid, hversion, hle⟩ := h.bound _ _ _ (storedRun_of_runs b.found)
  rw [hfound] at hsession
  cases hsession
  obtain ⟨_, hsid, hdid, hdv, _⟩ := b.same_run
  have hrun : patch.stored.run.sessionId = b.aggregate.stored.run.sessionId := by rw [b.stored_run, hsid]
  obtain ⟨ho, hsn, hv, howner⟩ := h.keyed _ _ hfound
  obtain ⟨_, hu, hstored⟩ | ⟨_, hu, hstored⟩ := b.session_cases
  · refine h.write (ownerId, b.aggregate.stored.run.sessionId)
      { b.session with version := b.session.version + 1 } ⟨ho, hsn, by simp, howner⟩ ?_ ?_ ?_
    · intro before hb
      rw [hfound] at hb
      cases hb
      exact ⟨rfl, Nat.le_succ _⟩
    · simp only [applyCommitPatch, hu, hrun]
    · intro o r stored hst
      rw [b.storedRun_after] at hst
      split_ifs at hst with hkey
      · cases hst
        cases hkey
        refine .inr ⟨by rw [hrun], ?_, ?_, hstored.le⟩
        · rw [b.stored_run, ← hdid, hid]
        · rw [b.stored_run, ← hdv, hversion]
      · exact .inl hst
  · -- the session is the one that is there
    refine h.write (ownerId, b.aggregate.stored.run.sessionId) b.session ⟨ho, hsn, hv, howner⟩ ?_ ?_ ?_
    · intro before hb
      rw [hfound] at hb
      cases hb
      exact ⟨rfl, le_rfl⟩
    · rw [Table.insert_self_eq hfound]
      simp only [applyCommitPatch, hu]
    · intro o r stored hst
      rw [b.storedRun_after] at hst
      split_ifs at hst with hkey
      · cases hst
        cases hkey
        refine .inr ⟨by rw [hrun], ?_, ?_, hstored.le.trans hle⟩
        · rw [b.stored_run, ← hdid, hid]
        · rw [b.stored_run, ← hdv, hversion]
      · exact .inl hst

theorem sessionsBound_of_accepted (h : SessionsBound s) (hacc : Accepted digests s op s') : SessionsBound s' := by
  cases hacc with
  | applyPolicy _ _ => exact h.congr rfl fun _ => rfl
  | applyGrant _ _ => exact h.congr rfl fun _ => rfl
  | @createRun ownerId request version stored hc hst =>
    have hchecked := checkCreateRun_eq_ok hc
    refine h.write (ownerId, request.session.id) _
      ⟨hchecked.owner_valid, request.session.id_ne_nil, hchecked.version_ne_zero, hchecked.owner_eq⟩ ?_ rfl ?_
    · intro before hb
      obtain ⟨hlt, hdef, _⟩ := hchecked.existing before hb
      exact ⟨hdef, hlt.le⟩
    · intro o r st hst'
      rw [storedRun_createdState] at hst'
      split_ifs at hst' with hkey
      · cases hst'
        cases hkey
        refine .inr ?_
        rw [hst]
        exact ⟨by rw [hchecked.session_eq], hchecked.definition_eq.1, hchecked.definition_eq.2, le_rfl⟩
      · exact .inl hst'
  | @retryRun ownerId request source command session stored hs hu hc =>
    have hchecked := checkRetryRun_eq_ok hs hc
    obtain ⟨before, hbefore, rfl, hid, hversion⟩ := hchecked.existing
    obtain ⟨ho, hsn, _, howner⟩ := h.keyed _ _ hbefore
    refine h.write (ownerId, source.stored.run.sessionId)
      { before with version := before.version + 1 } ⟨ho, hsn, by simp, howner⟩ ?_ rfl ?_
    · intro before' hb
      rw [hbefore] at hb
      cases hb
      exact ⟨rfl, Nat.le_succ _⟩
    · intro o r st hst'
      rw [storedRun_writeRetryRun] at hst'
      split_ifs at hst' with hkey
      · cases hst'
        cases hkey
        refine .inr ⟨?_, ?_, ?_, hchecked.stored_versions.2.le⟩
        · rw [hchecked.stored_run]
        · rw [hchecked.stored_run]
          exact hid.symm
        · rw [hchecked.stored_run]
          exact hversion.symm
      · exact .inl hst'
  | acquireLease _ => exact h.congr rfl fun k => storedRun_setLease _ k
  | renewLease _ => exact h.congr rfl fun k => storedRun_setLease _ k
  | commit hcom =>
    obtain ⟨b⟩ := buildCommitPatch_eq_ok hcom.built
    exact h.commit b _

theorem sessionsBound_of_reaches {allowed : State → Op → Prop} (h : Reaches (step digests) allowed State.empty s) :
    SessionsBound s :=
  invariant_of_accepted h sessionsBound_empty fun _ _ _ _ hp _ hacc => sessionsBound_of_accepted hp hacc

end AnimaCore
