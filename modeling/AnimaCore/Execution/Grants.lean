import AnimaCore.Execution.Transitions

/-!
# AnimaCore.Execution.Grants — counted grants are never over-spent

A counted grant is spent by two paths of a commit, the approval that resumes a run and the automatic dispatch, and is
changed by `apply_authoritative_grant`.

* `Consumes`: what a commit that spends a use has checked; `patchGrants_cases`: a commit spends one use of a grant, or
  leaves every grant as it is.
* `GrantTables`: every grant is stored under its own key, and a consumption key names a grant that is at its revision
  or past it.
* `Conserved`: after a revision was installed with `n` uses, its remaining uses and its consumption keys add up to `n`
  until the revision is replaced, and then there are at most `n` keys.
-/

namespace AnimaCore

open Lib

variable {digests : Digests} {s s' : State} {ownerId : Uuid} {op : Op} {commit : ExecutionCommit} {nowMs : ℕ}

/-! ## Spending a use -/

/-- The consumption key of a reported consumption. -/
def spentKey (digests : Digests) (ownerId : Uuid) (consumption : GrantConsumption) : ConsumptionKey :=
  (ownerId, (GrantAuthorityKey.fromGrantId digests consumption.grantId).asStr, consumption.grantRevision,
    consumption.logicalInvocationId)

/-- What a commit that spends a use of `current` has checked; `left` uses are left after it. -/
structure Consumes (digests : Digests) (s : State) (ownerId : Uuid) (nowMs : ℕ) (consumption : GrantConsumption)
    (current : AuthoritativeGrantState) (left : ℕ) : Prop where
  key_eq : current.authorityKey = GrantAuthorityKey.fromGrantId digests consumption.grantId
  revision_eq : current.revision = consumption.grantRevision
  found : s.authoritativeGrants[(ownerId, current.authorityKey.asStr)]? = some current
  unused : spentKey digests ownerId consumption ∉ s.grantConsumptions
  counted : current.remainingUses = some (left + 1)
  active : current.status = .active
  begun : current.validFromMs ≤ nowMs
  unexpired : ∀ u, current.validUntilMs = some u → (nowMs : ℤ) < u

theorem validateBinding_eq_ok {g : AuthoritativeGrantState} {b : GrantAuthorityBinding}
    (h : g.validateBinding b nowMs = .ok ()) :
    b.authorityKey = g.authorityKey ∧ b.revision = g.revision ∧ g.status = .active ∧ g.validFromMs ≤ nowMs ∧
      ∀ u, g.validUntilMs = some u → (nowMs : ℤ) < u := by
  simp only [AuthoritativeGrantState.validateBinding, AuthoritativeGrantState.binding, GrantAuthorityBinding.fromParts,
    bind_eq_ok, ensure_eq_ok, toStore_eq_ok] at h
  obtain ⟨_, _, own, ⟨_, _, hown⟩, rfl, hactive, hbegun, huntil, _⟩ := h
  cases hown
  refine ⟨rfl, rfl, hactive, hbegun, ?_⟩
  intro u hu
  simpa [hu] using huntil

theorem consume_eq_ok {g g' : AuthoritativeGrantState} {b : GrantAuthorityBinding} (h : g.consume b nowMs = .ok g') :
    g.validateBinding b nowMs = .ok () ∧
      ∃ left, g.remainingUses = some (left + 1) ∧ g' = { g with remainingUses := some left } := by
  simp only [AuthoritativeGrantState.consume, bind_eq_ok, ensure_eq_ok, okOr_eq_ok] at h
  obtain ⟨_, hval, remaining, hrem, _, hne, h⟩ := h
  cases h
  obtain ⟨left, rfl⟩ := Nat.exists_eq_succ_of_ne_zero hne
  exact ⟨hval, left, hrem, rfl⟩

theorem consumes_of_consume {g g' : AuthoritativeGrantState} {b : GrantAuthorityBinding}
    {consumption : GrantConsumption} (hfound : s.authoritativeGrants[(ownerId, b.authorityKey.asStr)]? = some g)
    (hmatch : b.matchesConsumption digests consumption = true)
    (hunused : (ownerId, b.authorityKey.asStr, consumption.grantRevision, consumption.logicalInvocationId) ∉
      s.grantConsumptions)
    (hconsume : g.consume b nowMs = .ok g') :
    ∃ left, Consumes digests s ownerId nowMs consumption g left ∧ g' = { g with remainingUses := some left } := by
  obtain ⟨hval, left, hrem, rfl⟩ := consume_eq_ok hconsume
  obtain ⟨hkey, hrev, hactive, hbegun, huntil⟩ := validateBinding_eq_ok hval
  simp only [GrantAuthorityBinding.matchesConsumption, Bool.and_eq_true, decide_eq_true_eq, beq_iff_eq] at hmatch
  refine ⟨left, ⟨hkey.symm.trans hmatch.1, hrev.symm.trans hmatch.2, by rw [← hkey]; exact hfound, ?_, hrem, hactive,
    hbegun, huntil⟩, rfl⟩
  rw [spentKey, ← hmatch.1]
  exact hunused

/-- The grant patch leaves the grants as they are. -/
def GrantPatch.Idle (s : State) (ownerId : Uuid) (p : GrantPatch) : Prop :=
  p.consumptionKey = none ∧
    ∀ g, p.update = some g → s.authoritativeGrants[(ownerId, g.authorityKey.asStr)]? = some g

/-- The grant patch spends one use for the consumption. -/
def GrantPatch.Spends (digests : Digests) (s : State) (ownerId : Uuid) (nowMs : ℕ) (consumption : GrantConsumption)
    (p : GrantPatch) : Prop :=
  ∃ current left, Consumes digests s ownerId nowMs consumption current left ∧
    p.update = some { current with remainingUses := some left } ∧
    p.consumptionKey = some (spentKey digests ownerId consumption)

theorem patchApprovalGrant_cases {approval : ApprovalGrantMutation} {p : GrantPatch}
    (h : patchApprovalGrant digests s ownerId approval nowMs = .ok p) :
    (approval.grantConsumption = none ∧ p.Idle s ownerId) ∨
      ∃ consumption, approval.grantConsumption = some consumption ∧ p.Spends digests s ownerId nowMs consumption := by
  unfold patchApprovalGrant at h
  split at h
  · simp only [bind_eq_ok, ensure_eq_ok, okOr_eq_ok] at h
    obtain ⟨binding, _, g, hg, _, hval, _, _, h⟩ := h
    unfold consumeApprovalGrant at h
    split at h
    · next consumption remaining hc hr =>
      simp only [bind_eq_ok, ensure_eq_ok, okOr_eq_ok] at h
      obtain ⟨snapshot, _, _, ⟨_, hmatch⟩, _, hunused, g', hconsume, h⟩ := h
      cases h
      obtain ⟨left, hcons, rfl⟩ := consumes_of_consume hg hmatch hunused hconsume
      refine .inr ⟨consumption, hc, g, left, hcons, rfl, ?_⟩
      simp only [GrantAuthorityBinding.matchesConsumption, Bool.and_eq_true, decide_eq_true_eq] at hmatch
      rw [spentKey, ← hmatch.1]
    · next hc hr =>
      cases h
      refine .inl ⟨hc, rfl, ?_⟩
      rintro _ ⟨⟩
      rw [← (validateBinding_eq_ok hval).1]
      exact hg
    · cases h
  · split_ifs at h with hc
    cases h
    exact .inl ⟨hc, rfl, by rintro _ ⟨⟩⟩
  · cases h

theorem patchGrants_cases {aggregate : RunAggregate} {p : GrantPatch}
    (h : patchGrants digests s ownerId aggregate commit nowMs = .ok p) :
    (reportedConsumption commit = none ∧ p.Idle s ownerId) ∨
      ∃ consumption, reportedConsumption commit = some consumption ∧
        p.Spends digests s ownerId nowMs consumption := by
  simp only [patchGrants, bind_eq_ok, ensure_eq_ok] at h
  obtain ⟨_, hnot, before, hbefore, h⟩ := h
  cases hd : commit.dispatchGrant with
  | none =>
    simp only [patchDispatchGrant, hd] at h
    cases h
    unfold patchApproval at hbefore
    cases ha : commit.approval with
    | none =>
      simp only [ha] at hbefore
      cases hbefore
      exact .inl ⟨by simp [reportedConsumption, ha, hd], rfl, by rintro _ ⟨⟩⟩
    | some approval =>
      simp only [ha] at hbefore
      split at hbefore
      · cases hbefore
      · simp only [bind_eq_ok, ensure_eq_ok] at hbefore
        obtain ⟨_, _, hpatch⟩ := hbefore
        obtain ⟨hc, hidle⟩ | ⟨consumption, hc, hspends⟩ := patchApprovalGrant_cases hpatch
        · exact .inl ⟨by simp [reportedConsumption, ha, hd, hc], hidle⟩
        · exact .inr ⟨consumption, by simp [reportedConsumption, ha, hc], hspends⟩
  | some dispatch =>
    -- a dispatch grant excludes an approval
    have ha : commit.approval = none := by
      by_contra hsome
      exact hnot ⟨Option.isSome_iff_ne_none.mpr hsome, by rw [hd]; rfl⟩
    simp only [patchDispatchGrant, hd, bind_eq_ok, ensure_eq_ok, okOr_eq_ok] at h
    obtain ⟨attempt, _, _, _, g, hg, _, ⟨_, hmatch⟩, _, hunused, g', hconsume, h⟩ := h
    cases h
    obtain ⟨left, hcons, rfl⟩ := consumes_of_consume hg hmatch hunused hconsume
    refine .inr ⟨dispatch.consumption, by simp [reportedConsumption, ha, hd], g, left, hcons, rfl, ?_⟩
    simp only [GrantAuthorityBinding.matchesConsumption, Bool.and_eq_true, decide_eq_true_eq] at hmatch
    rw [spentKey, ← hmatch.1]

/-- What an accepted call does to grants and consumptions. -/
inductive GrantStep (digests : Digests) (s s' : State) : Op → Prop
  /-- Nothing. -/
  | keep {op : Op} (grants : s'.authoritativeGrants = s.authoritativeGrants)
      (keys : s'.grantConsumptions = s.grantConsumptions) : GrantStep digests s s' op
  /-- A change of one grant. -/
  | change {ownerId : Uuid} {change : AuthoritativeGrantChange} {next : AuthoritativeGrantState}
      (owned : change.newState.all (fun next => next.ownerId == ownerId) = true)
      (applied : change.applyTo s.authoritativeGrants[(ownerId, change.authorityKey.asStr)]? = .ok next)
      (grants : s'.authoritativeGrants = s.authoritativeGrants.insert (ownerId, next.authorityKey.asStr) next)
      (keys : s'.grantConsumptions = s.grantConsumptions) : GrantStep digests s s' (.applyGrant ownerId change)
  /-- A commit spends one use. -/
  | spend {ownerId : Uuid} {commit : ExecutionCommit} {nowMs left : ℕ} {consumption : GrantConsumption}
      {current : AuthoritativeGrantState}
      (reported : reportedConsumption commit = some consumption)
      (consumes : Consumes digests s ownerId nowMs consumption current left)
      (grants : s'.authoritativeGrants = s.authoritativeGrants.insert (ownerId, current.authorityKey.asStr)
        { current with remainingUses := some left })
      (keys : s'.grantConsumptions = s.grantConsumptions.insert (spentKey digests ownerId consumption)) :
      GrantStep digests s s' (.commit ownerId commit nowMs)

theorem Accepted.grantStep (hacc : Accepted digests s op s') : GrantStep digests s s' op := by
  cases hacc with
  | applyPolicy _ _ => exact .keep rfl rfl
  | applyGrant ho ha => exact .change ho ha rfl rfl
  | createRun _ _ => exact .keep rfl rfl
  | retryRun _ _ _ => exact .keep rfl rfl
  | acquireLease _ => exact .keep rfl rfl
  | renewLease _ => exact .keep rfl rfl
  | commit hcom =>
    obtain ⟨b⟩ := buildCommitPatch_eq_ok hcom.built
    obtain ⟨hupdate, hkey, _⟩ := b.patchGrants_eq
    obtain ⟨_, hnone, hidle⟩ | ⟨consumption, hrep, current, left, hcons, hupd, hspent⟩ := patchGrants_cases b.grants_eq
    · refine .keep ?_ (by simp [applyCommitPatch, hkey, hnone])
      cases hg : b.grants.update with
      | none => simp [applyCommitPatch, hupdate, hg]
      | some g =>
        simp only [applyCommitPatch, hupdate, hg]
        exact Table.insert_self_eq (hidle g hg)
    · exact .spend hrep hcons (by simp [applyCommitPatch, hupdate, hupd]) (by simp [applyCommitPatch, hkey, hspent])

/-! ## Grant tables -/

theorem applyTo_eq_ok {change : AuthoritativeGrantChange} {current : Option AuthoritativeGrantState}
    {next : AuthoritativeGrantState} (h : change.applyTo current = .ok next) :
    (current = none ∧ change.newState = some next ∧ next.authorityKey = change.authorityKey) ∨
      (∃ g, current = some g ∧ change.newState = some next ∧ next.authorityKey = change.authorityKey ∧
        g.ownerId = next.ownerId ∧ g.revision < next.revision) ∨
      ∃ g, current = some g ∧ change.newState = none ∧ next = g.asRevoked ∧
        g.authorityKey = change.authorityKey := by
  obtain ⟨kind, hvalid⟩ := change
  cases kind with
  | create state =>
    cases current with
    | none =>
      cases h
      exact .inl ⟨rfl, rfl, rfl⟩
    | some g => cases h
  | update expected state =>
    cases current with
    | none => cases h
    | some g =>
      simp only [AuthoritativeGrantChange.applyTo] at h
      split_ifs at h with hc
      cases h
      exact .inr (.inl ⟨g, rfl, rfl, rfl, hc.1, hc.2.2.2⟩)
  | revoke key expected =>
    cases current with
    | none => cases h
    | some g =>
      simp only [AuthoritativeGrantChange.applyTo] at h
      split_ifs at h with hc
      cases h
      exact .inr (.inr ⟨g, rfl, rfl, rfl, hc.1⟩)

/-- A grant is stored under its own key, and a consumption key names a grant at its revision or past it. -/
structure GrantTables (s : State) : Prop where
  keyed : ∀ (ownerId : Uuid) (key : String) (g : AuthoritativeGrantState),
    s.authoritativeGrants[(ownerId, key)]? = some g → g.ownerId = ownerId ∧ g.authorityKey.asStr = key
  bounded : ∀ (ownerId : Uuid) (key : String) (revision : ℕ) (invocation : Uuid),
    (ownerId, key, revision, invocation) ∈ s.grantConsumptions →
      ∃ g, s.authoritativeGrants[(ownerId, key)]? = some g ∧ revision ≤ g.revision

theorem grantTables_of_accepted (h : GrantTables s) (hacc : Accepted digests s op s') : GrantTables s' := by
  cases hacc.grantStep with
  | keep hg hk => exact ⟨by rw [hg]; exact h.keyed, by rw [hg, hk]; exact h.bounded⟩
  | @change ownerId change next ho ha hg hk =>
    -- the changed grant is the one under the change's key, with the same or a higher revision
    have hnext : next.ownerId = ownerId ∧ next.authorityKey = change.authorityKey ∧
        ∀ g, s.authoritativeGrants[(ownerId, change.authorityKey.asStr)]? = some g → g.revision ≤ next.revision := by
      obtain ⟨hc, hnew, hkey⟩ | ⟨g, hc, hnew, hkey, _, hrev⟩ | ⟨g, hc, _, rfl, hkey⟩ := applyTo_eq_ok ha
      · exact ⟨by simpa [hnew] using ho, hkey, by rw [hc]; rintro _ ⟨⟩⟩
      · refine ⟨by simpa [hnew] using ho, hkey, ?_⟩
        rw [hc]
        rintro _ ⟨⟩
        exact hrev.le
      · refine ⟨(h.keyed _ _ _ hc).1, hkey, ?_⟩
        rw [hc]
        rintro _ ⟨⟩
        exact le_rfl
    constructor
    · intro o k g hlook
      rw [hg, Table.getElem?_insert_eq] at hlook
      split_ifs at hlook with heq
      · cases hlook
        cases heq
        exact ⟨hnext.1, rfl⟩
      · exact h.keyed o k g hlook
    · intro o k r i hmem
      rw [hk] at hmem
      obtain ⟨g, hlook, hle⟩ := h.bounded o k r i hmem
      rw [hg, Table.getElem?_insert_eq]
      split_ifs with heq
      · cases heq
        rw [hnext.2.1] at hlook
        exact ⟨next, rfl, hle.trans (hnext.2.2 g hlook)⟩
      · exact ⟨g, hlook, hle⟩
  | @spend ownerId commit nowMs left consumption current _ hcons hg hk =>
    have hkeyed := h.keyed _ _ _ hcons.found
    constructor
    · intro o k g hlook
      rw [hg, Table.getElem?_insert_eq] at hlook
      split_ifs at hlook with heq
      · cases hlook
        cases heq
        exact hkeyed
      · exact h.keyed o k g hlook
    · intro o k r i hmem
      rw [hk, KeySet.mem_insert_iff] at hmem
      rw [hg, Table.getElem?_insert_eq]
      obtain hkey | hmem := hmem
      · rw [spentKey, ← hcons.key_eq] at hkey
        cases hkey
        rw [if_pos rfl]
        exact ⟨_, rfl, hcons.revision_eq.ge⟩
      · obtain ⟨g, hlook, hle⟩ := h.bounded o k r i hmem
        split_ifs with heq
        · cases heq
          rw [hcons.found] at hlook
          cases hlook
          exact ⟨_, rfl, hle⟩
        · exact ⟨g, hlook, hle⟩

theorem grantTables_of_reaches {allowed : State → Op → Prop} (h : Reaches (step digests) allowed State.empty s) :
    GrantTables s :=
  invariant_of_accepted h
    ⟨by intro o k g hg; simp [State.empty] at hg, by intro o k r i hm; simp [State.empty] at hm⟩
    fun _ _ _ _ hp _ hacc => grantTables_of_accepted hp hacc

/-! ## Conservation -/

/-- The consumption keys of one revision of a grant. -/
def ofRevision (ownerId : Uuid) (key : String) (revision : ℕ) (k : ConsumptionKey) : Bool :=
  k.1 == ownerId && k.2.1 == key && k.2.2.1 == revision

/-- How many invocations have consumed a revision of a grant. -/
def State.uses (s : State) (ownerId : Uuid) (key : String) (revision : ℕ) : ℕ :=
  s.grantConsumptions.toList.countP (ofRevision ownerId key revision)

theorem uses_insert {k : ConsumptionKey} (hnew : k ∉ s.grantConsumptions)
    (hk : s'.grantConsumptions = s.grantConsumptions.insert k) (ownerId : Uuid) (key : String) (revision : ℕ) :
    s'.uses ownerId key revision = s.uses ownerId key revision + (ofRevision ownerId key revision k).toNat := by
  rw [State.uses, hk, (KeySet.toList_insert_perm hnew).countP_eq, List.countP_cons, State.uses]
  cases ofRevision ownerId key revision k <;> rfl

/-- What an accepted call does to one stored grant and to the uses of its revisions. -/
inductive GrantAt (s s' : State) (ownerId : Uuid) (key : String) (g g' : AuthoritativeGrantState) : Prop
  | keep (same : g' = g ∨ g' = g.asRevoked) (uses : ∀ r, s'.uses ownerId key r = s.uses ownerId key r)
  | update (revision : g.revision < g'.revision) (uses : ∀ r, s'.uses ownerId key r = s.uses ownerId key r)
  | spend {left : ℕ} (active : g.status = .active) (counted : g.remainingUses = some (left + 1))
      (spent : g' = { g with remainingUses := some left })
      (uses : ∀ r, s'.uses ownerId key r = s.uses ownerId key r + (g.revision == r).toNat)

theorem grantAt_of_accepted {key : String} {g : AuthoritativeGrantState} (hacc : Accepted digests s op s')
    (hlook : s.authoritativeGrants[(ownerId, key)]? = some g) :
    ∃ g', s'.authoritativeGrants[(ownerId, key)]? = some g' ∧ GrantAt s s' ownerId key g g' := by
  cases hacc.grantStep with
  | keep hg hk => exact ⟨g, by rw [hg]; exact hlook, .keep (.inl rfl) fun r => by rw [State.uses, hk, State.uses]⟩
  | @change owner change next ho ha hg hk =>
    have huses : ∀ r, s'.uses ownerId key r = s.uses ownerId key r := fun r => by rw [State.uses, hk, State.uses]
    by_cases heq : (owner, next.authorityKey.asStr) = (ownerId, key)
    · refine ⟨next, by simp [hg, heq], ?_⟩
      have hcurrent : ∀ g₀, s.authoritativeGrants[(owner, change.authorityKey.asStr)]? = g₀ →
          next.authorityKey = change.authorityKey → g₀ = some g := by
        rintro _ rfl hkey
        rw [← hkey, heq, hlook]
      obtain ⟨hc, _, hkey⟩ | ⟨g₀, hc, _, hkey, _, hrev⟩ | ⟨g₀, hc, _, rfl, hkey⟩ := applyTo_eq_ok ha
      · cases hcurrent _ hc hkey
      · cases hcurrent _ hc hkey
        exact .update hrev huses
      · cases hcurrent _ hc hkey
        exact .keep (.inr rfl) huses
    · exact ⟨g, by rw [hg, Table.getElem?_insert_eq, if_neg heq]; exact hlook, .keep (.inl rfl) huses⟩
  | @spend owner commit nowMs left consumption current _ hcons hg hk =>
    have huses := uses_insert hcons.unused hk ownerId key
    by_cases heq : (owner, current.authorityKey.asStr) = (ownerId, key)
    · have hcurrent : current = g := by
        have hfound := hcons.found
        rw [heq, hlook] at hfound
        exact (Option.some.inj hfound).symm
      subst hcurrent
      refine ⟨{ current with remainingUses := some left }, by simp [hg, heq], .spend hcons.active hcons.counted rfl ?_⟩
      intro r
      cases heq
      rw [huses]
      simp [ofRevision, spentKey, ← hcons.key_eq, hcons.revision_eq]
    · refine ⟨g, by rw [hg, Table.getElem?_insert_eq, if_neg heq]; exact hlook, .keep (.inl rfl) ?_⟩
      intro r
      have hother : ofRevision ownerId key r (spentKey digests owner consumption) = false := by
        rw [Bool.eq_false_iff]
        intro hmine
        simp only [ofRevision, spentKey, ← hcons.key_eq, Bool.and_eq_true, beq_iff_eq] at hmine
        exact heq (Prod.ext hmine.1.1 hmine.1.2)
      rw [huses, hother]
      rfl

/-- The uses of a revision that was installed with `n` of them. -/
def Conserved (s : State) (ownerId : Uuid) (key : String) (revision n : ℕ) : Prop :=
  ∃ g, s.authoritativeGrants[(ownerId, key)]? = some g ∧
    ((g.revision = revision ∧ ∃ left, g.remainingUses = some left ∧ n = left + s.uses ownerId key revision) ∨
      (revision < g.revision ∧ s.uses ownerId key revision ≤ n))

theorem conserved_of_accepted {key : String} {revision n : ℕ} (h : Conserved s ownerId key revision n)
    (hacc : Accepted digests s op s') : Conserved s' ownerId key revision n := by
  obtain ⟨g, hlook, hcount⟩ := h
  obtain ⟨g', hlook', hstep⟩ := grantAt_of_accepted hacc hlook
  refine ⟨g', hlook', ?_⟩
  cases hstep with
  | keep hsame huses =>
    rw [huses]
    obtain rfl | rfl := hsame
    · exact hcount
    · exact hcount
  | update hrev huses =>
    rw [huses]
    obtain ⟨hr, left, _, hn⟩ | ⟨hr, hle⟩ := hcount
    · exact .inr ⟨hr ▸ hrev, by omega⟩
    · exact .inr ⟨hr.trans hrev, hle⟩
  | @spend left hactive hcounted hspent huses =>
    subst hspent
    rw [huses]
    obtain ⟨hr, left', hleft, hn⟩ | ⟨hr, hle⟩ := hcount
    · refine .inl ⟨hr, left, rfl, ?_⟩
      rw [hcounted] at hleft
      cases hleft
      simp only [hr, beq_self_eq_true, Bool.toNat_true]
      omega
    · refine .inr ⟨hr, ?_⟩
      simpa only [beq_false_of_ne hr.ne', Bool.toNat_false, Nat.add_zero] using hle

def Closed (s : State) (ownerId : Uuid) (key : String) (revision : ℕ) : Prop :=
  ∃ g, s.authoritativeGrants[(ownerId, key)]? = some g ∧
    ((g.revision = revision ∧ g.status = .revoked) ∨ revision < g.revision)

theorem closed_of_accepted {key : String} {revision : ℕ} (h : Closed s ownerId key revision)
    (hacc : Accepted digests s op s') : Closed s' ownerId key revision := by
  obtain ⟨g, hlook, hclosed⟩ := h
  obtain ⟨g', hlook', hstep⟩ := grantAt_of_accepted hacc hlook
  refine ⟨g', hlook', ?_⟩
  cases hstep with
  | keep hsame _ =>
    obtain rfl | rfl := hsame
    · exact hclosed
    · exact hclosed.imp (fun hr => ⟨hr.1, rfl⟩) id
  | update hrev _ =>
    obtain ⟨hr, _⟩ | hr := hclosed
    · exact .inr (hr ▸ hrev)
    · exact .inr (hr.trans hrev)
  | spend _ _ hspent _ =>
    subst hspent
    exact hclosed

theorem spent_of_accepted {key : String} {revision : ℕ} {invocation : Uuid} (hacc : Accepted digests s op s')
    (hnew : (ownerId, key, revision, invocation) ∈ s'.grantConsumptions)
    (hold : (ownerId, key, revision, invocation) ∉ s.grantConsumptions) :
    ∃ commit nowMs consumption current left, op = .commit ownerId commit nowMs ∧
      reportedConsumption commit = some consumption ∧
      spentKey digests ownerId consumption = (ownerId, key, revision, invocation) ∧
      Consumes digests s ownerId nowMs consumption current left ∧
      s.authoritativeGrants[(ownerId, key)]? = some current ∧ current.revision = revision := by
  cases hacc.grantStep with
  | keep _ hk => exact absurd (hk ▸ hnew) hold
  | change _ _ _ hk => exact absurd (hk ▸ hnew) hold
  | @spend owner commit nowMs left consumption current hrep hcons _ hk =>
    rw [hk, KeySet.mem_insert_iff] at hnew
    obtain hkey | hmem := hnew
    · have hparts := hkey
      rw [spentKey, ← hcons.key_eq] at hparts
      cases hparts
      exact ⟨commit, nowMs, consumption, current, left, rfl, hrep, hkey, hcons, hcons.found, hcons.revision_eq⟩
    · exact absurd hmem hold

theorem keys_grow (hacc : Accepted digests s op s') {k : ConsumptionKey} (hk : k ∈ s.grantConsumptions) :
    k ∈ s'.grantConsumptions := by
  cases hacc.grantStep with
  | keep _ hkeys => rwa [hkeys]
  | change _ _ _ hkeys => rwa [hkeys]
  | spend _ _ _ hkeys =>
    rw [hkeys, KeySet.mem_insert_iff]
    exact .inr hk

theorem no_spend_of_closed {key : String} {revision : ℕ} {invocation : Uuid} (h : Closed s ownerId key revision)
    (hacc : Accepted digests s op s') (hnew : (ownerId, key, revision, invocation) ∈ s'.grantConsumptions) :
    (ownerId, key, revision, invocation) ∈ s.grantConsumptions := by
  by_contra hold
  obtain ⟨g, hlook, hclosed⟩ := h
  obtain ⟨_, _, _, current, _, _, _, _, hcons, hfound, hrev⟩ := spent_of_accepted hacc hnew hold
  rw [hlook] at hfound
  cases hfound
  obtain ⟨_, hrevoked⟩ | hr := hclosed
  · rw [hcons.active] at hrevoked
    cases hrevoked
  · exact absurd hrev hr.ne'

/-! ## The grant law -/

variable (digests) in
theorem conserved_of_installed (ht : GrantTables s) {change : AuthoritativeGrantChange}
    {grant : AuthoritativeGrantState} {n : ℕ} (hnew : change.newState = some grant)
    (hn : grant.remainingUses = some n) (hok : (applyAuthoritativeGrant ownerId change s).1 = .ok grant) :
    Conserved (step digests s (.applyGrant ownerId change)) ownerId grant.authorityKey.asStr grant.revision n := by
  simp only [step, exec, reply, applyAuthoritativeGrant] at hok ⊢
  split_ifs at hok with hnil
  rw [if_neg hnil]
  cases ha : change.applyTo s.authoritativeGrants[(ownerId, change.authorityKey.asStr)]? with
  | error e => simp [ha] at hok
  | ok next =>
    simp only [ha] at hok ⊢
    cases hok
    refine ⟨grant, by simp, .inl ⟨rfl, n, hn, ?_⟩⟩
    -- a key of this revision would name a stored grant that is already there
    have hzero : s.uses ownerId grant.authorityKey.asStr grant.revision = 0 := by
      rw [State.uses, List.countP_eq_zero]
      rintro ⟨o, k, r, i⟩ hmem hmine
      simp only [ofRevision, Bool.and_eq_true, beq_iff_eq] at hmine
      obtain ⟨⟨rfl, rfl⟩, rfl⟩ := hmine
      obtain ⟨g, hg, hle⟩ := ht.bounded _ _ _ _ (Std.ExtTreeSet.mem_toList.mp hmem)
      obtain ⟨hc, _, hkey⟩ | ⟨g₀, hc, _, hkey, _, hrev⟩ | ⟨_, _, hnone, _⟩ := applyTo_eq_ok ha
      · rw [← hkey, hg] at hc
        cases hc
      · rw [← hkey, hg] at hc
        cases hc
        omega
      · rw [hnew] at hnone
        cases hnone
    have huses : ∀ grants, State.uses { s with authoritativeGrants := grants } ownerId grant.authorityKey.asStr
        grant.revision = 0 := fun _ => hzero
    rw [huses, Nat.add_zero]

variable (digests) in
theorem conserved_run {key : String} {revision n : ℕ} (h : Conserved s ownerId key revision n) (ops : List Op) :
    Conserved (run (step digests) s ops) ownerId key revision n := by
  refine run_induction (step digests) s (P := fun _ s => Conserved s ownerId key revision n) ops h ?_
  intro l op hc
  obtain hsame | hacc := step_cases digests (run (step digests) s l) op
  · rwa [hsame]
  · exact conserved_of_accepted hc hacc

theorem closed_run {key : String} {revision : ℕ} (h : Closed s ownerId key revision) (ops : List Op) {invocation : Uuid}
    (hmem : (ownerId, key, revision, invocation) ∈ (run (step digests) s ops).grantConsumptions) :
    (ownerId, key, revision, invocation) ∈ s.grantConsumptions := by
  refine (run_induction (step digests) s (P := fun _ t => Closed t ownerId key revision ∧
    ((ownerId, key, revision, invocation) ∈ t.grantConsumptions →
      (ownerId, key, revision, invocation) ∈ s.grantConsumptions)) ops ⟨h, id⟩ ?_).2 hmem
  rintro l op ⟨hc, hback⟩
  obtain hsame | hacc := step_cases digests (run (step digests) s l) op
  · rw [hsame]
    exact ⟨hc, hback⟩
  · exact ⟨closed_of_accepted hc hacc, fun hnew => hback (no_spend_of_closed hc hacc hnew)⟩

/-- **Counted grants are never over-spent.** -/
theorem counted_grants_never_overspent (digests : Digests) (before after : List Op) (ownerId : Uuid)
    (change : AuthoritativeGrantChange) (grant : AuthoritativeGrantState) (n : ℕ)
    (hnew : change.newState = some grant) (hn : grant.remainingUses = some n)
    (hok : (applyAuthoritativeGrant ownerId change (run (step digests) State.empty before)).1 = .ok grant) :
    let s := run (step digests) State.empty (before ++ .applyGrant ownerId change :: after)
    let key := grant.authorityKey.asStr
    -- the uses left and the consumption keys add up, while the revision is stored
    (∀ current, s.authoritativeGrants[(ownerId, key)]? = some current → current.revision = grant.revision →
      ∃ left, current.remainingUses = some left ∧ n = left + s.uses ownerId key grant.revision) ∧
    -- at most `n` invocations ever consume it
    s.uses ownerId key grant.revision ≤ n ∧
    -- a consumption is of an invocation that had none, from the stored grant while it is active and unexpired
    (∀ commit nowMs outcome consumption, freshlyAccepted digests s ownerId commit nowMs = true →
      (commitExecution digests ownerId commit nowMs s).1 = .ok outcome →
      outcome.grantConsumption = some consumption →
      spentKey digests ownerId consumption ∉ s.grantConsumptions ∧
        spentKey digests ownerId consumption ∈ (step digests s (.commit ownerId commit nowMs)).grantConsumptions ∧
        ∃ current, s.authoritativeGrants[(ownerId, (spentKey digests ownerId consumption).2.1)]? = some current ∧
          current.revision = consumption.grantRevision ∧ current.status = .active ∧
          current.validFromMs ≤ nowMs ∧ ∀ u, current.validUntilMs = some u → (nowMs : ℤ) < u) ∧
    -- nothing else writes a consumption key, and none is ever removed
    (∀ op k, k ∈ (step digests s op).grantConsumptions → k ∉ s.grantConsumptions →
      ∃ commit nowMs consumption, op = .commit k.1 commit nowMs ∧
        freshlyAccepted digests s k.1 commit nowMs = true ∧ reportedConsumption commit = some consumption ∧
        spentKey digests k.1 consumption = k) ∧
    (∀ op k, k ∈ s.grantConsumptions → k ∈ (step digests s op).grantConsumptions) ∧
    -- none after the revision was revoked or replaced
    (∀ current, s.authoritativeGrants[(ownerId, key)]? = some current →
      current.status = .revoked ∨ current.revision ≠ grant.revision →
      ∀ later invocation, (ownerId, key, grant.revision, invocation) ∈
          (run (step digests) s later).grantConsumptions →
        (ownerId, key, grant.revision, invocation) ∈ s.grantConsumptions) := by
  intro s key
  have ht := grantTables_of_reaches (@reaches_run _ _ (step digests) State.empty before)
  have hcons : Conserved s ownerId key grant.revision n := by
    have hinst := conserved_of_installed digests ht hnew hn hok
    have hrun := conserved_run digests hinst after
    rw [← run_cons, ← run_append] at hrun
    exact hrun
  obtain ⟨g, hg, hcount⟩ := hcons
  refine ⟨?_, ?_, ?_, ?_, ?_, ?_⟩
  · intro current hcur hrev
    rw [hg] at hcur
    cases hcur
    obtain ⟨_, hleft⟩ | ⟨hlt, _⟩ := hcount
    · exact hleft
    · omega
  · obtain ⟨_, left, _, hsum⟩ | ⟨_, hle⟩ := hcount
    · omega
    · exact hle
  · intro commit nowMs outcome consumption hfresh hres hrep
    obtain ⟨patch, hcom⟩ := freshlyAccepted_iff.mp hfresh
    obtain ⟨b⟩ := buildCommitPatch_eq_ok hcom.built
    rw [hcom.exec_eq] at hres
    cases hres
    have hrep : reportedConsumption commit = some consumption := b.patchGrants_eq.2.2.symm.trans hrep
    obtain ⟨hnone, _⟩ | ⟨consumption', hrep', current, left, hc, _, hkey⟩ := patchGrants_cases b.grants_eq
    · rw [hrep] at hnone
      cases hnone
    · rw [hrep] at hrep'
      cases hrep'
      refine ⟨hc.unused, ?_, current, ?_, hc.revision_eq, hc.active, hc.begun, hc.unexpired⟩
      · rw [hcom.step_eq]
        simp [applyCommitPatch, b.patchGrants_eq.2.1, hkey]
      · rw [spentKey, ← hc.key_eq]
        exact hc.found
  · rintro op ⟨o, k, r, i⟩ hnewk hold
    obtain hsame | hacc := step_cases digests s op
    · rw [hsame] at hnewk
      exact absurd hnewk hold
    · obtain ⟨commit, nowMs, consumption, current, left, rfl, hrep, hkey, _⟩ := spent_of_accepted hacc hnewk hold
      obtain ⟨patch, hcom, _⟩ := hacc.committed
      exact ⟨commit, nowMs, consumption, rfl, freshlyAccepted_iff.mpr ⟨patch, hcom⟩, hrep, hkey⟩
  · intro op k hk
    obtain hsame | hacc := step_cases digests s op
    · rwa [hsame]
    · exact keys_grow hacc hk
  · intro current hcur hclosed later invocation hmem
    rw [hg] at hcur
    cases hcur
    refine closed_run ⟨g, hg, ?_⟩ later hmem
    obtain ⟨hr, _⟩ | ⟨hr, _⟩ := hcount
    · obtain hrevoked | hne := hclosed
      · exact .inl ⟨hr, hrevoked⟩
      · exact absurd hr hne
    · exact .inr hr

theorem sample_grant_conserved :
    (run (step Sample.digests) State.empty [.applyGrant Sample.ownerId { kind := .create Sample.grant, valid := rfl }]).uses
      Sample.ownerId Sample.grant.authorityKey.asStr 1 ≤ 2 :=
  (counted_grants_never_overspent Sample.digests [] [] Sample.ownerId { kind := .create Sample.grant, valid := rfl }
    Sample.grant 2 rfl rfl rfl).2.1

end AnimaCore
