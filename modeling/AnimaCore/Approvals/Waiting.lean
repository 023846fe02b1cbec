import AnimaCore.Approvals

/-!
# AnimaCore.Approvals.Waiting — a run waits exactly while an approval is pending

One transaction after another opens an approval, settles one, stops what a finished run left behind, or takes back the
opening or the settlement just before it, whose save failed; runs begin, are asked to stop and end in between.

* `Core`: the invariant; `Core.opened`, `Core.settled` and the lemmas beside them are its steps.
-/

namespace AnimaCore.Approvals

open Lib Lib.Table Runs

variable {host : Host} {s s' : DaemonState} {id runId ruleId : String} {now : ℕ} {ask : ApprovalAsk}
  {settlement : Settlement}

/-! ## Pending approvals of a run -/

def ApprovalRegistry.Awaits (r : ApprovalRegistry) (runId : String) : Prop :=
  ∃ (id : String) (a : ApprovalRequest), r.approvals[id]? = some a ∧ a.isPending = true ∧ a.runId = runId

theorem pendingIds_ne_nil {r : ApprovalRegistry} : r.pendingIdsForRun runId ≠ [] ↔ r.Awaits runId := by
  unfold ApprovalRegistry.pendingIdsForRun ApprovalRegistry.pending ApprovalRegistry.Awaits
  rw [ne_eq, List.map_eq_nil_iff, ← ne_eq]
  constructor
  · intro hne
    obtain ⟨a, ha⟩ := List.exists_mem_of_ne_nil _ hne
    obtain ⟨hmem, hrun⟩ := List.mem_filter.mp ha
    obtain ⟨hmem, hpending⟩ := List.mem_filter.mp (List.mem_mergeSort.mp hmem)
    obtain ⟨id, hid⟩ := mem_vals.mp hmem
    exact ⟨id, a, hid, hpending, by simpa using hrun⟩
  · rintro ⟨id, a, hid, hpending, hrun⟩
    have hmem : a ∈ (vals r.approvals).filter ApprovalRequest.isPending := List.mem_filter.mpr ⟨mem_vals.mpr ⟨id, hid⟩, hpending⟩
    exact List.ne_nil_of_mem (List.mem_filter.mpr ⟨List.mem_mergeSort.mpr hmem, by simpa using hrun⟩)

/-! ## What a call reads and writes -/

theorem resumeIfUnblocked_cases (s : DaemonState) (runId : String) :
    s.resumeIfUnblocked runId = (none, s) ∧
        (s.approvals.Awaits runId ∨ ∀ run, s.runs[runId]? = some run → run.status ≠ .awaitingApproval) ∨
      ∃ run, ¬s.approvals.Awaits runId ∧ s.runs[runId]? = some run ∧ run.status = .awaitingApproval ∧
        s.resumeIfUnblocked runId =
          (some { run with status := .running },
            { s with runs := s.runs.insert runId { run with status := .running } }) := by
  unfold DaemonState.resumeIfUnblocked
  by_cases hawaits : s.approvals.Awaits runId
  · rw [if_pos (pendingIds_ne_nil.mpr hawaits)]
    exact .inl ⟨rfl, .inl hawaits⟩
  · rw [if_neg (mt pendingIds_ne_nil.mp hawaits)]
    cases hrun : s.runs[runId]? with
    | none => exact .inl ⟨rfl, .inr fun run h => by cases h⟩
    | some run =>
      by_cases hstatus : run.status = .awaitingApproval
      · refine .inr ⟨run, hawaits, rfl, hstatus, ?_⟩
        simp [Option.filter_some, hstatus]
      · refine .inl ⟨by simp [Option.filter_some, hstatus], .inr fun run' h => ?_⟩
        cases h
        exact hstatus

theorem open_eq_ok {opened : OpenedApproval} (h : (DaemonState.openApproval host id ask now).call s = (.ok opened, s')) :
    ∃ run : RunRecord, s.runs[ask.run.runId]? = some run ∧ isInFlight run.status = true ∧
      opened.approval = .new host id ask now ∧
      opened.run.isSome = (run.status == .running) ∧
      s' = { s with
        runs := if run.status == .running then s.runs.insert ask.run.runId { run with status := .awaitingApproval } else s.runs
        approvals := s.approvals.insert (.new host id ask now) } := by
  unfold DaemonState.openApproval at h
  simp only [Method.get_bind_call, Method.check_bind_eq_ok, okOr_eq_ok, ensure_eq_ok, Option.filter_eq_some_iff,
    Method.set_bind_call, Method.call_pure, Prod.mk.injEq, Except.ok.injEq] at h
  obtain ⟨run, ⟨hrun, -⟩, -, -, -, hflight, rfl, rfl⟩ := h
  refine ⟨run, hrun, hflight, rfl, ?_, rfl⟩
  cases run.status == .running <;> rfl

theorem openApproval_guarded : Method.Guarded (fun _ => true) (DaemonState.openApproval host id ask now) := by
  unfold DaemonState.openApproval
  exact .get fun s => .check fun run => .check fun _ => .check fun _ => .assign rfl _

/-- What a grant changes: nothing, the allowances of one session, or the rules. -/
inductive GrantEffect (previous : ApprovalRequest) (ruleId : String) (s : DaemonState) : Granted → DaemonState → Prop
  | nothing (rule : Option String) :
    GrantEffect previous ruleId s { ruleId := rule, addedRule := none, addedAllowance := false } s
  | allowance (session : SessionRecord) (g : SessionAllowance)
    (hs : s.sessions[(previous.agentId, previous.sessionId)]? = some session) (hg : g.fromApprovalId = previous.id) :
    GrantEffect previous ruleId s { ruleId := none, addedRule := none, addedAllowance := true }
      { s with sessions := s.sessions.insert (previous.agentId, previous.sessionId)
                { session with sessionAllowances := session.sessionAllowances ++ [g] } }
  | rule (r : ApprovalRule) (hr : r.agentId = previous.agentId) :
    GrantEffect previous ruleId s { ruleId := some ruleId, addedRule := some ruleId, addedAllowance := false }
      { s with approvals := { s.approvals with rules := s.approvals.rules.insert ruleId r } }

variable {previous : ApprovalRequest} {granted : Granted}

theorem allowForSession_effect {m : ApprovalMatcher}
    (h : (DaemonState.allowForSession previous m now).call s = (.ok granted, s')) :
    GrantEffect previous ruleId s granted s' := by
  unfold DaemonState.allowForSession at h
  simp only [Method.get_bind_call, Method.check_bind_eq_ok, okOr_eq_ok] at h
  obtain ⟨session, hsession, h⟩ := h
  split_ifs at h with hheld
  · simp only [Method.call_pure, Prod.mk.injEq, Except.ok.injEq] at h
    obtain ⟨rfl, rfl⟩ := h
    exact .nothing none
  · simp only [Method.check_bind_eq_ok, Method.set_bind_call, Method.call_pure, Prod.mk.injEq, Except.ok.injEq] at h
    obtain ⟨_, -, rfl, rfl⟩ := h
    exact .allowance session _ hsession rfl

theorem addRule_cases (r : ApprovalRegistry) {rule : ApprovalRule} :
    r.addRule rule = .error tooManyRules ∨ r.addRule rule = .ok { r with rules := r.rules.insert rule.id rule } := by
  unfold ApprovalRegistry.addRule
  by_cases hheld : maxApprovalRulesPerAgent ≤ (vals r.rules).countP fun existing => existing.agentId == rule.agentId
  · exact .inl (if_pos hheld)
  · exact .inr (if_neg hheld)

theorem allowByRule_effect {m : ApprovalMatcher}
    (h : (DaemonState.allowByRule host previous m now ruleId).call s = (.ok granted, s')) :
    GrantEffect previous ruleId s granted s' := by
  unfold DaemonState.allowByRule at h
  rw [Method.get_bind_call] at h
  cases hfind : s.approvals.findRule host previous.agentId previous.tool m with
  | some rule =>
    rw [hfind] at h
    simp only [Method.call_pure, Prod.mk.injEq, Except.ok.injEq] at h
    obtain ⟨rfl, rfl⟩ := h
    exact .nothing _
  | none =>
    rw [hfind] at h
    simp only [Method.check_bind_eq_ok, Method.set_bind_call, Method.call_pure, Prod.mk.injEq, Except.ok.injEq] at h
    obtain ⟨approvals, hadd, rfl, rfl⟩ := h
    rcases addRule_cases s.approvals with hr | hr
    · rw [hr] at hadd
      cases hadd
    · rw [hr] at hadd
      cases hadd
      exact .rule _ rfl

theorem addGrant_effect {grant : Option (ApprovalDecisionKind × ApprovalMatcher)}
    (h : (DaemonState.addGrant host previous grant now ruleId).call s = (.ok granted, s')) :
    GrantEffect previous ruleId s granted s' := by
  rcases grant with _ | ⟨kind, m⟩
  · cases h
    exact .nothing none
  · cases kind with
    | allowSession => exact allowForSession_effect h
    | allowOnce => exact allowByRule_effect h
    | allowAlways => exact allowByRule_effect h
    | deny => exact allowByRule_effect h

theorem addGrant_guarded (grant : Option (ApprovalDecisionKind × ApprovalMatcher)) :
    Method.Guarded (fun _ => true) (DaemonState.addGrant host previous grant now ruleId) := by
  have hrule : ∀ m, Method.Guarded (fun _ => true) (DaemonState.allowByRule host previous m now ruleId) := by
    intro m
    unfold DaemonState.allowByRule
    refine .get fun s => ?_
    cases s.approvals.findRule host previous.agentId previous.tool m with
    | some rule => exact .pure _
    | none => exact .check fun approvals => .assign rfl _
  rcases grant with _ | ⟨kind, m⟩
  · exact .pure _
  · cases kind with
    | allowSession =>
      show Method.Guarded (fun _ => true) (DaemonState.allowForSession previous m now)
      unfold DaemonState.allowForSession
      exact .get fun s => .check fun session => .ite (.pure _) (.check fun _ => .assign rfl _)
    | allowOnce => exact hrule m
    | allowAlways => exact hrule m
    | deny => exact hrule m

theorem settle_eq_ok {settled : SettledApproval}
    (h : (DaemonState.settleApproval host id settlement now ruleId).call s = (.ok settled, s')) :
    ∃ (previous : ApprovalRequest) (o : Outcome) (granted : Granted) (s₁ : DaemonState),
      s.approvals.approvals[id]? = some previous ∧ previous.isPending = true ∧
      outcome host previous settlement now = .ok o ∧ GrantEffect previous ruleId s granted s₁ ∧
      settled.approval = previous.resolve o.status { o.resolution with ruleId := granted.ruleId } ∧
      (∃ run, ({ s₁ with approvals := { s₁.approvals with
        approvals := s₁.approvals.approvals.insert id settled.approval } } : DaemonState).resumeIfUnblocked
          previous.runId = (run, s') ∧
        settled.undo = { previous, addedRule := granted.addedRule, addedAllowance := granted.addedAllowance
                         resumedRun := run.isSome }) := by
  unfold DaemonState.settleApproval at h
  simp only [Method.get_bind_call, Method.check_bind_eq_ok, okOr_eq_ok, ensure_eq_ok] at h
  obtain ⟨previous, hprevious, _, hpending, o, ho, h⟩ := h
  rw [Method.bind_call] at h
  rcases hgrant : (DaemonState.addGrant host previous o.grant now ruleId).call s with ⟨e | granted, s₁⟩
  · rw [hgrant] at h
    cases h
  · rw [hgrant] at h
    simp only [Method.get_bind_call, Method.set_bind_call, Method.call_pure, Prod.mk.injEq, Except.ok.injEq] at h
    obtain ⟨rfl, rfl⟩ := h
    exact ⟨previous, o, granted, s₁, hprevious, hpending, ho, addGrant_effect hgrant, rfl, _, rfl, rfl⟩

theorem settleApproval_guarded :
    Method.Guarded (fun _ => true) (DaemonState.settleApproval host id settlement now ruleId) := by
  unfold DaemonState.settleApproval
  exact .get fun s => .check fun previous => .check fun _ => .check fun o =>
    (addGrant_guarded o.grant).andThen fun granted s => ⟨_, rfl, rfl⟩

/-! ## The invariant -/

namespace DaemonState

/-- An approval that is in the registry and no longer pending. -/
def Decided (s : DaemonState) (id : String) : Prop :=
  ∃ a : ApprovalRequest, s.approvals.approvals[id]? = some a ∧ a.isPending = false

/-- **A run in flight waits exactly while it has a pending approval.** -/
def Waits (s : DaemonState) : Prop :=
  ∀ (runId : String) (run : RunRecord), s.runs[runId]? = some run → isInFlight run.status = true →
    (run.status = .awaitingApproval ↔ s.approvals.Awaits runId)

/-- No grant of a session comes from the approval. -/
def Ungranted (s : DaemonState) (id : String) : Prop :=
  ∀ (key : String × String) (session : SessionRecord), s.sessions[key]? = some session →
    ∀ g ∈ session.sessionAllowances, g.fromApprovalId ≠ id

def Fresh (s : DaemonState) (id : String) : Prop := s.approvals.approvals[id]? = none ∧ s.Ungranted id

end DaemonState

/-- What holds between transactions; `log` is the settlements that stand, from `start` on. -/
structure Core (start : DaemonState) (log : List (String × Settlement)) (s : DaemonState) : Prop where
  keyed : ∀ (id : String) (a : ApprovalRequest), s.approvals.approvals[id]? = some a → a.id = id
  waits : s.Waits
  ungranted : ∀ (id : String) (a : ApprovalRequest), s.approvals.approvals[id]? = some a → a.isPending = true → s.Ungranted id
  once : (log.map Prod.fst).Nodup
  decided : ∀ id, s.Decided id ↔ start.Decided id ∨ id ∈ log.map Prod.fst
  new : ∀ id ∈ log.map Prod.fst, ¬start.Decided id
  allowed : ∀ (id : String) (a : ApprovalRequest), s.approvals.approvals[id]? = some a → a.status = .allowed →
    (∃ b : ApprovalRequest, start.approvals.approvals[id]? = some b ∧ b.status = .allowed) ∨
      ∃ decision, (id, .owner decision) ∈ log ∧ decision.kind ≠ .deny

variable {start : DaemonState} {log : List (String × Settlement)}

theorem Core.of_runs (h : Core start log s) {runs : Table String RunRecord}
    (hwaits : ({ s with runs } : DaemonState).Waits) : Core start log { s with runs } :=
  ⟨h.keyed, hwaits, h.ungranted, h.once, h.decided, h.new, h.allowed⟩

/-! ## Opening -/

theorem awaits_insert {r : ApprovalRegistry} {a : ApprovalRequest} (hnew : r.approvals[a.id]? = none)
    (hpending : a.isPending = true) : (r.insert a).Awaits runId ↔ a.runId = runId ∨ r.Awaits runId := by
  have hget : ∀ id : String, (r.insert a).approvals[id]? = if a.id = id then some a else r.approvals[id]? :=
    fun id => getElem?_insert_eq a.id id a
  unfold ApprovalRegistry.Awaits
  constructor
  · rintro ⟨id, b, hb, hb', hrun⟩
    rw [hget] at hb
    split_ifs at hb with hid
    · cases hb
      exact .inl hrun
    · exact .inr ⟨id, b, hb, hb', hrun⟩
  · rintro (hrun | ⟨id, b, hb, hb', hrun⟩)
    · exact ⟨a.id, a, by rw [hget, if_pos rfl], hpending, hrun⟩
    · refine ⟨id, b, ?_, hb', hrun⟩
      rw [hget, if_neg ?_]
      · exact hb
      · rintro rfl
        rw [hnew] at hb
        cases hb

theorem Core.opened (h : Core start log s) (hfresh : s.Fresh id) {opened : OpenedApproval}
    (hopen : (DaemonState.openApproval host id ask now).call s = (.ok opened, s')) : Core start log s' := by
  obtain ⟨run, hrun, hflight, -, -, rfl⟩ := open_eq_ok hopen
  have hget : ∀ id' : String, (s.approvals.insert (.new host id ask now)).approvals[id']? =
      if id = id' then some (.new host id ask now) else s.approvals.approvals[id']? :=
    fun id' => getElem?_insert_eq id id' _
  refine ⟨?_, ?_, ?_, h.once, ?_, h.new, ?_⟩
  · intro id' a ha
    rw [hget] at ha
    split_ifs at ha with hid
    · cases ha
      exact hid
    · exact h.keyed id' a ha
  · -- The run of the new approval waits now; nothing changes for the others.
    intro runId run' hrun' hflight'
    show run'.status = .awaitingApproval ↔ (s.approvals.insert (.new host id ask now)).Awaits runId
    rw [awaits_insert hfresh.1 rfl]
    have hold : s.runs[runId]? = some run' → ask.run.runId ≠ runId →
        (run'.status = .awaitingApproval ↔ ask.run.runId = runId ∨ s.approvals.Awaits runId) := by
      intro hr hne
      rw [h.waits runId run' hr hflight', or_iff_right hne]
    have hruns : (if run.status == .running then
        s.runs.insert ask.run.runId { run with status := .awaitingApproval } else s.runs)[runId]? = some run' := hrun'
    split_ifs at hruns with hmoved
    · rw [getElem?_insert_eq] at hruns
      split_ifs at hruns with hid
      · cases hruns
        exact ⟨fun _ => .inl hid, fun _ => rfl⟩
      · exact hold hruns hid
    · by_cases hid : ask.run.runId = runId
      · subst hid
        rw [hrun] at hruns
        cases hruns
        have hstatus : run.status = .awaitingApproval := by
          unfold isInFlight at hflight
          simpa [hmoved] using hflight
        exact ⟨fun _ => .inl rfl, fun _ => hstatus⟩
      · exact hold hruns hid
  · intro id' a ha hpending
    rw [hget] at ha
    split_ifs at ha with hid
    · subst hid
      exact hfresh.2
    · exact h.ungranted id' a ha hpending
  · intro id'
    rw [← h.decided id']
    unfold DaemonState.Decided
    rw [hget]
    split_ifs with hid
    · subst hid
      simp [hfresh.1, ApprovalRequest.new, ApprovalRequest.isPending]
    · exact Iff.rfl
  · intro id' a ha hallowed
    rw [hget] at ha
    split_ifs at ha with hid
    · cases ha
      cases hallowed
    · exact h.allowed id' a ha hallowed

theorem reopen_eq (h : Core start log s) (hfresh : s.Fresh id) {opened : OpenedApproval}
    (hopen : (DaemonState.openApproval host id ask now).call s = (.ok opened, s')) :
    s'.revertOpenApproval opened = s := by
  obtain ⟨run, hrun, hflight, happroval, hmoved, rfl⟩ := open_eq_ok hopen
  have herase : (s.approvals.insert (.new host id ask now)).remove id = s.approvals := by
    show ({ s.approvals with approvals := (s.approvals.approvals.insert id (.new host id ask now)).erase id } :
      ApprovalRegistry) = s.approvals
    rw [erase_insert_new hfresh.1]
  unfold DaemonState.revertOpenApproval
  rw [hmoved, happroval]
  by_cases hstatus : run.status = .running
  · -- The run was not waiting, so nothing of it is pending once the new approval is gone.
    have hfree : ¬s.approvals.Awaits ask.run.runId := fun hawaits => by
      rw [← h.waits _ run hrun hflight, hstatus] at hawaits
      cases hawaits
    simp only [hstatus, beq_self_eq_true, if_true]
    have hid : (ApprovalRequest.new host id ask now).id = id := rfl
    rw [hid, herase]
    rcases resumeIfUnblocked_cases { s with runs := s.runs.insert ask.run.runId { run with status := .awaitingApproval } }
      ask.run.runId with ⟨-, hawaits | hnot⟩ | ⟨run', -, hrun', -, heq⟩
    · exact absurd hawaits hfree
    · exact absurd rfl (hnot { run with status := .awaitingApproval } (by simp))
    · have hr : run' = { run with status := .awaitingApproval } := by
        simpa using hrun'.symm
      show (DaemonState.resumeIfUnblocked _ ask.run.runId).2 = s
      rw [heq]
      have hback : ({ run' with status := .running } : RunRecord) = run := by
        rw [hr, ← hstatus]
      show ({ s with runs := (s.runs.insert ask.run.runId _).insert ask.run.runId { run' with status := .running } } : DaemonState) = s
      rw [hback, insert_back hrun]
  · have hbeq : (run.status == .running) = false := by simpa using hstatus
    simp only [hbeq, Bool.false_eq_true, if_false]
    show ({ s with approvals := (s.approvals.insert (.new host id ask now)).remove id } : DaemonState) = s
    rw [herase]

/-! ## Settling -/

theorem outcome_status {o : Outcome} (h : outcome host previous settlement now = .ok o) :
    o.status ≠ .pending ∧ (o.status = .allowed → ∃ decision, settlement = .owner decision ∧ decision.kind ≠ .deny) := by
  cases settlement with
  | owner decision =>
    simp only [outcome, bind_eq_ok, pure, Except.pure, Except.ok.injEq] at h
    obtain ⟨_, -, note, -, m, -, rfl⟩ := h
    by_cases hdeny : decision.kind = .deny
    · simp [hdeny]
    · simp [hdeny]
  | timedOut =>
    cases h
    simp
  | stopped =>
    cases h
    simp

namespace GrantEffect

variable {s₁ : DaemonState}

theorem runs (h : GrantEffect previous ruleId s granted s₁) : s₁.runs = s.runs := by
  cases h <;> rfl

theorem approvals (h : GrantEffect previous ruleId s granted s₁) : s₁.approvals.approvals = s.approvals.approvals := by
  cases h <;> rfl

theorem ungranted (h : GrantEffect previous ruleId s granted s₁) {id : String} (hid : previous.id ≠ id)
    (hs : s.Ungranted id) : s₁.Ungranted id := by
  cases h with
  | nothing => exact hs
  | rule => exact hs
  | allowance session g hsession hg =>
    intro key session' hsession' g' hg'
    have hget : (s.sessions.insert (previous.agentId, previous.sessionId)
        { session with sessionAllowances := session.sessionAllowances ++ [g] })[key]? = some session' := hsession'
    rw [getElem?_insert_eq] at hget
    split_ifs at hget with hkey
    · cases hget
      rcases List.mem_append.mp hg' with hold | hnew
      · exact hs _ session (hkey ▸ hsession) g' hold
      · rw [List.mem_singleton.mp hnew, hg]
        exact hid
    · exact hs key session' hget g' hg'

end GrantEffect

theorem awaits_decide {r : ApprovalRegistry} {a b : ApprovalRequest} (hold : r.approvals[id]? = some b)
    (hrun : a.runId = b.runId) (hdecided : a.isPending = false) :
    (({ r with approvals := r.approvals.insert id a } : ApprovalRegistry).Awaits runId → r.Awaits runId) ∧
      (a.runId ≠ runId → r.Awaits runId →
        ({ r with approvals := r.approvals.insert id a } : ApprovalRegistry).Awaits runId) := by
  have hget : ∀ id' : String, (r.approvals.insert id a)[id']? = if id = id' then some a else r.approvals[id']? :=
    fun id' => getElem?_insert_eq id id' a
  constructor
  · rintro ⟨id', c, hc, hc', hr⟩
    have hc : (r.approvals.insert id a)[id']? = some c := hc
    rw [hget] at hc
    split_ifs at hc with hid
    · cases hc
      rw [hdecided] at hc'
      cases hc'
    · exact ⟨id', c, hc, hc', hr⟩
  · rintro hne ⟨id', c, hc, hc', hr⟩
    refine ⟨id', c, ?_, hc', hr⟩
    show (r.approvals.insert id a)[id']? = some c
    rw [hget, if_neg ?_]
    · exact hc
    · rintro rfl
      rw [hold] at hc
      cases hc
      exact hne (hrun.trans hr)

theorem resume_frame (s : DaemonState) (runId : String) :
    (s.resumeIfUnblocked runId).2.approvals = s.approvals ∧ (s.resumeIfUnblocked runId).2.sessions = s.sessions := by
  rcases resumeIfUnblocked_cases s runId with ⟨heq, -⟩ | ⟨run, -, -, -, heq⟩ <;> rw [heq] <;> exact ⟨rfl, rfl⟩

theorem waits_resume (hself : ∀ run : RunRecord, s.runs[runId]? = some run → isInFlight run.status = true →
      run.status = .awaitingApproval)
    (hothers : ∀ (other : String) (run : RunRecord), runId ≠ other → s.runs[other]? = some run →
      isInFlight run.status = true → (run.status = .awaitingApproval ↔ s.approvals.Awaits other)) :
    (s.resumeIfUnblocked runId).2.Waits := by
  rcases resumeIfUnblocked_cases s runId with ⟨heq, hwhy⟩ | ⟨run, hfree, hrun, hstatus, heq⟩
  · rw [heq]
    intro other run hrun hflight
    by_cases hne : runId = other
    · subst hne
      have hwaiting := hself run hrun hflight
      rcases hwhy with hawaits | hnot
      · exact ⟨fun _ => hawaits, fun _ => hwaiting⟩
      · exact absurd hwaiting (hnot run hrun)
    · exact hothers other run hne hrun hflight
  · rw [heq]
    intro other run' hrun' hflight
    have hget : (s.runs.insert runId { run with status := .running })[other]? = some run' := hrun'
    rw [getElem?_insert_eq] at hget
    split_ifs at hget with hne
    · subst hne
      cases hget
      constructor
      · intro hrunning
        cases hrunning
      · exact fun hawaits => absurd hawaits hfree
    · exact hothers other run' hne hget hflight

theorem Core.settled (h : Core start log s) {settled : SettledApproval}
    (hsettle : (DaemonState.settleApproval host id settlement now ruleId).call s = (.ok settled, s')) :
    Core start (log ++ [(id, settlement)]) s' := by
  obtain ⟨previous, o, granted, s₁, hprevious, hpending, ho, hgrant, hsettled, run, hresume, -⟩ := settle_eq_ok hsettle
  obtain ⟨hnotPending, hallowed⟩ := outcome_status ho
  have hrunId : settled.approval.runId = previous.runId := by
    rw [hsettled]
    rfl
  have hstatus : settled.approval.status = o.status := by
    rw [hsettled]
    rfl
  have hdecided : settled.approval.isPending = false := by
    unfold ApprovalRequest.isPending
    rw [hstatus]
    exact beq_eq_false_iff_ne.mpr hnotPending
  have hid : settled.approval.id = id := by
    rw [hsettled]
    exact h.keyed id previous hprevious
  have hundecided : ¬s.Decided id := by
    rintro ⟨a, ha, hnot⟩
    rw [hprevious] at ha
    cases ha
    rw [hpending] at hnot
    cases hnot
  -- The registry after it, and what resuming the run leaves alone.
  have happrovals : s'.approvals.approvals = s.approvals.approvals.insert id settled.approval ∧
      s'.approvals.rules = s₁.approvals.rules ∧ s'.sessions = s₁.sessions := by
    obtain ⟨hframe, hsessions⟩ := resume_frame ({ s₁ with approvals := { s₁.approvals with
      approvals := s₁.approvals.approvals.insert id settled.approval } } : DaemonState) previous.runId
    rw [hresume] at hframe hsessions
    rw [hframe, hsessions, ← hgrant.approvals]
    exact ⟨rfl, rfl, rfl⟩
  have hget : ∀ id' : String, s'.approvals.approvals[id']? =
      if id = id' then some settled.approval else s.approvals.approvals[id']? := by
    intro id'
    rw [happrovals.1]
    exact getElem?_insert_eq id id' _
  refine ⟨?_, ?_, ?_, ?_, ?_, ?_, ?_⟩
  · intro id' a ha
    rw [hget] at ha
    split_ifs at ha with heq
    · cases ha
      exact hid.trans heq
    · exact h.keyed id' a ha
  · have hawaits : ∀ other, (({ s₁.approvals with approvals := s₁.approvals.approvals.insert id settled.approval } :
          ApprovalRegistry).Awaits other → s₁.approvals.Awaits other) ∧
        (settled.approval.runId ≠ other → s₁.approvals.Awaits other →
          ({ s₁.approvals with approvals := s₁.approvals.approvals.insert id settled.approval } :
            ApprovalRegistry).Awaits other) :=
      fun other => awaits_decide (hgrant.approvals ▸ hprevious) hrunId hdecided
    have hold : ∀ other, s₁.approvals.Awaits other ↔ s.approvals.Awaits other := by
      intro other
      unfold ApprovalRegistry.Awaits
      rw [hgrant.approvals]
    rw [show s' = _ from (congrArg Prod.snd hresume).symm]
    refine waits_resume ?_ ?_
    · intro run hrun hflight
      have hrun : s.runs[previous.runId]? = some run := hgrant.runs ▸ hrun
      exact (h.waits _ run hrun hflight).mpr ⟨id, previous, hprevious, hpending, rfl⟩
    · intro other run hne hrun hflight
      have hrun : s.runs[other]? = some run := hgrant.runs ▸ hrun
      rw [h.waits _ run hrun hflight, ← hold]
      exact ⟨(hawaits other).2 (by rwa [hrunId]), (hawaits other).1⟩
  · intro id' a ha hwaiting
    rw [hget] at ha
    split_ifs at ha with heq
    · cases ha
      rw [hdecided] at hwaiting
      cases hwaiting
    · have hkeep : s₁.Ungranted id' :=
        hgrant.ungranted (by rwa [h.keyed id previous hprevious]) (h.ungranted id' a ha hwaiting)
      intro key session hsession
      rw [happrovals.2.2] at hsession
      exact hkeep key session hsession
  · rw [List.map_append, List.nodup_append]
    refine ⟨h.once, List.nodup_singleton _, ?_⟩
    intro x hx y hy
    rw [List.map_singleton, List.mem_singleton] at hy
    rintro rfl
    rw [hy] at hx
    exact hundecided ((h.decided id).mpr (.inr hx))
  · intro id'
    have hiff : s'.Decided id' ↔ s.Decided id' ∨ id = id' := by
      unfold DaemonState.Decided
      rw [hget]
      split_ifs with heq
      · simp [heq, hdecided]
      · simp [heq]
    rw [hiff, h.decided id', List.map_append, List.mem_append, List.map_singleton, List.mem_singleton, or_assoc]
    refine or_congr_right (or_congr_right ⟨Eq.symm, Eq.symm⟩)
  · intro id' hid'
    rw [List.map_append, List.mem_append, List.map_singleton, List.mem_singleton] at hid'
    rcases hid' with hid' | rfl
    · exact h.new id' hid'
    · exact fun hstart => hundecided ((h.decided _).mpr (.inl hstart))
  · intro id' a ha hstatus'
    rw [hget] at ha
    split_ifs at ha with heq
    · cases ha
      obtain ⟨decision, rfl, hkind⟩ := hallowed (hstatus ▸ hstatus')
      exact .inr ⟨decision, by simp [heq], hkind⟩
    · rcases h.allowed id' a ha hstatus' with hstart | ⟨decision, hmem, hkind⟩
      · exact .inl hstart
      · exact .inr ⟨decision, List.mem_append_left _ hmem, hkind⟩

/-! ## Taking a settlement back -/

theorem GrantEffect.undone {s₁ t : DaemonState} (h : GrantEffect previous ruleId s granted s₁)
    (hrule : s.approvals.rules[ruleId]? = none) (hfree : s.Ungranted previous.id) {undo : ApprovalUndo}
    (hprevious : undo.previous = previous) (haddedRule : undo.addedRule = granted.addedRule)
    (haddedAllowance : undo.addedAllowance = granted.addedAllowance) (hsessions : t.sessions = s₁.sessions)
    (hrules : t.approvals.rules = s₁.approvals.rules) :
    (t.removeAddedRule undo).removeAddedAllowance undo =
      { t with sessions := s.sessions, approvals := { t.approvals with rules := s.approvals.rules } } := by
  unfold DaemonState.removeAddedRule DaemonState.removeAddedAllowance
  rw [haddedRule, haddedAllowance, hprevious]
  cases h with
  | nothing rule =>
    show t = { t with sessions := s.sessions, approvals := { t.approvals with rules := s.approvals.rules } }
    rw [← hsessions, ← hrules]
  | allowance session g hsession hg =>
    have hget : t.sessions[(previous.agentId, previous.sessionId)]? =
        some { session with sessionAllowances := session.sessionAllowances ++ [g] } := by
      rw [hsessions]
      simp
    have hkept : (session.sessionAllowances ++ [g]).filter (fun a => a.fromApprovalId != previous.id) =
        session.sessionAllowances := by
      rw [List.filter_append, List.filter_eq_self.mpr]
      · simp [hg]
      · intro a ha
        simpa using hfree _ session hsession a ha
    simp only [if_true, hget, hkept]
    show ({ t with sessions := t.sessions.insert _ session } : DaemonState) = _
    rw [hsessions]
    show ({ t with sessions := (s.sessions.insert _ _).insert _ session } : DaemonState) = _
    rw [insert_back hsession]
    show ({ t with sessions := s.sessions } : DaemonState) =
      { t with sessions := s.sessions, approvals := { t.approvals with rules := s.approvals.rules } }
    rw [show s.approvals.rules = t.approvals.rules from hrules.symm]
  | rule r hr =>
    have hget : t.approvals.rules[ruleId]? = some r := by
      rw [hrules]
      simp
    have hremove : t.approvals.removeRule previous.agentId ruleId =
        { t.approvals with rules := s.approvals.rules } := by
      unfold ApprovalRegistry.removeRule
      rw [hget]
      simp only [Option.any_some, hr, beq_self_eq_true, if_true]
      rw [hrules]
      show ({ t.approvals with rules := (s.approvals.rules.insert ruleId r).erase ruleId } : ApprovalRegistry) = _
      rw [erase_insert_new hrule]
    simp only [hremove, Bool.false_eq_true, if_false]
    rw [show s.sessions = t.sessions from hsessions.symm]

theorem resettle_eq (h : Core start log s) (hrule : s.approvals.rules[ruleId]? = none) {settled : SettledApproval}
    (hsettle : (DaemonState.settleApproval host id settlement now ruleId).call s = (.ok settled, s')) :
    s'.revertSettledApproval settled.undo = s := by
  obtain ⟨previous, o, granted, s₁, hprevious, hpending, -, hgrant, -, run, hresume, hundo⟩ := settle_eq_ok hsettle
  have hid : previous.id = id := h.keyed id previous hprevious
  have hfree : s.Ungranted previous.id := by
    rw [hid]
    exact h.ungranted id previous hprevious hpending
  obtain ⟨hframe, hsessions⟩ := resume_frame ({ s₁ with approvals := { s₁.approvals with
    approvals := s₁.approvals.approvals.insert id settled.approval } } : DaemonState) previous.runId
  rw [hresume] at hframe hsessions
  have hundone : (s'.removeAddedRule settled.undo).removeAddedAllowance settled.undo =
      { s' with sessions := s.sessions, approvals := { s'.approvals with rules := s.approvals.rules } } :=
    hgrant.undone hrule hfree (by rw [hundo]) (by rw [hundo]) (by rw [hundo]) hsessions (by rw [hframe])
  -- The run is as it was, whether or not the settlement had resumed it.
  have hruns : (({ s' with sessions := s.sessions, approvals := { s'.approvals with rules := s.approvals.rules } } :
      DaemonState).awaitAgain settled.undo) =
        { runs := s.runs, sessions := s.sessions, approvals := { s'.approvals with rules := s.approvals.rules } } := by
    unfold DaemonState.awaitAgain
    rw [hundo]
    rcases resumeIfUnblocked_cases ({ s₁ with approvals := { s₁.approvals with
      approvals := s₁.approvals.approvals.insert id settled.approval } } : DaemonState) previous.runId with
      ⟨heq, -⟩ | ⟨before, -, hbefore, hstatus, heq⟩
    · rw [hresume] at heq
      cases heq
      simp only [Option.isSome_none, Bool.false_eq_true, if_false]
      rw [hgrant.runs]
    · rw [hresume] at heq
      cases heq
      have hbefore : s.runs[previous.runId]? = some before := hgrant.runs ▸ hbefore
      have hback : ({ before with status := .awaitingApproval } : RunRecord) = before := by
        rw [← hstatus]
      simp [Option.filter_some, hgrant.runs, hback, insert_back hbefore]
  have htable : s'.approvals.approvals.insert id previous = s.approvals.approvals := by
    rw [hframe]
    show (s₁.approvals.approvals.insert id settled.approval).insert id previous = s.approvals.approvals
    rw [hgrant.approvals]
    exact insert_back hprevious
  unfold DaemonState.revertSettledApproval
  rw [hundone]
  show ({ (DaemonState.awaitAgain _ settled.undo) with
    approvals := (DaemonState.awaitAgain _ settled.undo).approvals.insert settled.undo.previous } : DaemonState) = s
  rw [hruns, hundo]
  show ({ runs := s.runs, sessions := s.sessions, approvals := { approvals := s'.approvals.approvals.insert previous.id previous, rules := s.approvals.rules } } : DaemonState) = s
  rw [hid, htable]

/-! ## Every interleaving -/

/-- What can still be taken back: the transaction just before, whose save failed. -/
inductive Latest
  | opened (o : OpenedApproval)
  | settled (undo : ApprovalUndo)

/-- The daemon's state, what can be taken back, and the settlements that stand. -/
structure World where
  state : DaemonState
  latest : Option Latest
  settlements : List (String × Settlement)

inductive Op
  | openApproval (id : String) (ask : ApprovalAsk) (now : ℕ)
  | revertOpen
  | settle (id : String) (settlement : Settlement) (now : ℕ) (ruleId : String)
  | revertSettled
  | stopOrphaned (runId : String) (now : ℕ)
  | begin (run : RunRecord)
  | requestStop (runId : String) (now : ℕ)
  | finish (runId : String) (status : RunStatus)

namespace World

def new (start : DaemonState) : World := { state := start, latest := none, settlements := [] }

def step (host : Host) (w : World) : Op → World
  | .openApproval id ask now =>
    match (DaemonState.openApproval host id ask now).call w.state with
    | (.ok opened, state) => { w with state, latest := some (.opened opened) }
    | (.error _, state) => { w with state, latest := none }
  | .revertOpen =>
    match w.latest with
    | some (.opened o) => { w with state := w.state.revertOpenApproval o, latest := none }
    | _ => w
  | .settle id settlement now ruleId =>
    match (DaemonState.settleApproval host id settlement now ruleId).call w.state with
    | (.ok settled, state) =>
      { state, latest := some (.settled settled.undo), settlements := w.settlements ++ [(id, settlement)] }
    | (.error _, state) => { w with state, latest := none }
  | .revertSettled =>
    match w.latest with
    | some (.settled undo) =>
      { state := w.state.revertSettledApproval undo, latest := none, settlements := w.settlements.dropLast }
    | _ => w
  | .stopOrphaned runId now =>
    let stopped := DaemonState.stopOrphanedApprovals host w.state runId now
    { state := stopped.2, latest := none, settlements := w.settlements ++ stopped.1.map fun a => (a.id, .stopped) }
  | .begin run => { w with state := { w.state with runs := w.state.runs.insert run.id run }, latest := none }
  | .requestStop runId now =>
    { w with
      state := { w.state with runs := w.state.runs.modify runId fun run => { run with stop := some now } }
      latest := none }
  | .finish runId status =>
    { w with state := { w.state with runs := w.state.runs.modify runId fun run => { run with status } }, latest := none }

/-- New identifiers are new, a run starts as running, and it ends in a terminal status. -/
def Allowed (w : World) : Op → Prop
  | .openApproval id _ _ => w.state.Fresh id
  | .settle _ _ _ ruleId => w.state.approvals.rules[ruleId]? = none
  | .begin run => run.status = .running ∧ ¬w.state.approvals.Awaits run.id
  | .finish _ status => status.isTerminal = true
  | _ => True

end World

structure DaemonState.Quiet (s : DaemonState) : Prop where
  keyed : ∀ (id : String) (a : ApprovalRequest), s.approvals.approvals[id]? = some a → a.id = id
  decided : ∀ (id : String) (a : ApprovalRequest), s.approvals.approvals[id]? = some a → a.isPending = false
  running : ∀ (runId : String) (run : RunRecord), s.runs[runId]? = some run → run.status ≠ .awaitingApproval

/-- The invariant of a world: of its state, and of the state that it can go back to. -/
structure World.Sound (start : DaemonState) (w : World) : Prop where
  core : Core start w.settlements w.state
  opened : ∀ o, w.latest = some (.opened o) → Core start w.settlements (w.state.revertOpenApproval o)
  settled : ∀ undo, w.latest = some (.settled undo) →
    Core start w.settlements.dropLast (w.state.revertSettledApproval undo)

theorem World.sound_new (h : start.Quiet) : (World.new start).Sound start := by
  have hnot : ∀ runId, ¬start.approvals.Awaits runId := by
    rintro runId ⟨id, a, ha, hpending, -⟩
    rw [h.decided id a ha] at hpending
    cases hpending
  refine ⟨⟨h.keyed, ?_, ?_, List.nodup_nil, ?_, ?_, ?_⟩, ?_, ?_⟩
  · intro runId run hrun _
    exact ⟨fun hwaiting => absurd hwaiting (h.running runId run hrun), fun hawaits => absurd hawaits (hnot runId)⟩
  · intro id a ha hpending
    rw [h.decided id a ha] at hpending
    cases hpending
  · intro id
    show start.Decided id ↔ start.Decided id ∨ id ∈ []
    simp
  · intro id hid
    exact absurd hid List.not_mem_nil
  · exact fun id a ha hallowed => .inl ⟨a, ha, hallowed⟩
  · intro o ho
    cases ho
  · intro undo hundo
    cases hundo

theorem World.Sound.of_core {w : World} (h : Core start w.settlements w.state) (hlatest : w.latest = none) :
    w.Sound start := by
  refine ⟨h, fun o ho => ?_, fun undo hundo => ?_⟩
  · rw [hlatest] at ho
    cases ho
  · rw [hlatest] at hundo
    cases hundo

theorem Core.stopped (host : Host) (now : ℕ) (ids : List String) :
    ∀ (acc : List ApprovalRequest × DaemonState) (log : List (String × Settlement)),
      Core start (log ++ acc.1.map fun a => (a.id, .stopped)) acc.2 →
      Core start (log ++ (ids.foldl (DaemonState.stopOne host now) acc).1.map fun a => (a.id, .stopped))
        (ids.foldl (DaemonState.stopOne host now) acc).2 := by
  induction ids with
  | nil => exact fun acc log h => h
  | cons id ids ih =>
    intro acc log h
    rw [List.foldl_cons]
    refine ih _ log ?_
    unfold DaemonState.stopOne
    rcases hcall : (DaemonState.settleApproval host id .stopped now "").call acc.2 with ⟨e | settled, s'⟩
    · show Core start (log ++ acc.1.map fun a => (a.id, .stopped)) s'
      rw [settleApproval_guarded.refused hcall]
      exact h
    · have hid : settled.approval.id = id := by
        obtain ⟨previous, o, granted, s₁, hprevious, -, -, -, hsettled, -⟩ := settle_eq_ok hcall
        rw [hsettled]
        exact h.keyed id previous hprevious
      have hnext := h.settled hcall
      rw [← hid] at hnext
      show Core start (log ++ (acc.1 ++ [settled.approval]).map fun a => (a.id, .stopped)) s'
      rw [List.map_append, ← List.append_assoc]
      exact hnext

theorem World.Sound.step {w : World} (h : w.Sound start) (op : Op) (hop : w.Allowed op) :
    (w.step host op).Sound start := by
  cases op with
  | openApproval id ask now =>
    rcases hcall : (DaemonState.openApproval host id ask now).call w.state with ⟨e | opened, s'⟩
    · simp only [World.step, hcall]
      rw [openApproval_guarded.refused hcall]
      exact .of_core h.core rfl
    · simp only [World.step, hcall]
      refine ⟨h.core.opened hop hcall, fun o ho => ?_, fun undo hundo => ?_⟩
      · cases ho
        show Core start w.settlements (s'.revertOpenApproval opened)
        rw [reopen_eq h.core hop hcall]
        exact h.core
      · cases hundo
  | revertOpen =>
    rcases hlatest : w.latest with _ | ⟨o | undo⟩ <;> simp only [World.step, hlatest]
    · exact h
    · exact .of_core (h.opened o hlatest) rfl
    · exact h
  | settle id settlement now ruleId =>
    rcases hcall : (DaemonState.settleApproval host id settlement now ruleId).call w.state with ⟨e | settled, s'⟩
    · simp only [World.step, hcall]
      rw [settleApproval_guarded.refused hcall]
      exact .of_core h.core rfl
    · simp only [World.step, hcall]
      refine ⟨h.core.settled hcall, fun o ho => ?_, fun undo hundo => ?_⟩
      · cases ho
      · cases hundo
        show Core start (w.settlements ++ [(id, settlement)]).dropLast (s'.revertSettledApproval settled.undo)
        rw [resettle_eq h.core hop hcall, List.dropLast_concat]
        exact h.core
  | revertSettled =>
    rcases hlatest : w.latest with _ | ⟨o | undo⟩ <;> simp only [World.step, hlatest]
    · exact h
    · exact h
    · exact .of_core (h.settled undo hlatest) rfl
  | stopOrphaned runId now =>
    refine .of_core ?_ rfl
    refine Core.stopped host now (w.state.approvals.pendingIdsForRun runId) ([], w.state) w.settlements ?_
    simpa using h.core
  | begin run =>
    refine .of_core (h.core.of_runs ?_) rfl
    intro runId run' hrun' hflight
    have hget : (w.state.runs.insert run.id run)[runId]? = some run' := hrun'
    rw [getElem?_insert_eq] at hget
    split_ifs at hget with hid
    · cases hget
      rw [hop.1, ← hid]
      constructor
      · intro hwaiting
        cases hwaiting
      · exact fun hawaits => absurd hawaits hop.2
    · exact h.core.waits runId run' hget hflight
  | requestStop runId now =>
    refine .of_core (h.core.of_runs ?_) rfl
    intro other run' hrun' hflight
    have hget : (w.state.runs.modify runId fun run => { run with stop := some now })[other]? = some run' := hrun'
    rw [getElem?_modify_eq] at hget
    split_ifs at hget with hid
    · obtain ⟨run, hrun, rfl⟩ := Option.map_eq_some_iff.mp hget
      exact h.core.waits other run (hid ▸ hrun) hflight
    · exact h.core.waits other run' hget hflight
  | finish runId status =>
    refine .of_core (h.core.of_runs ?_) rfl
    intro other run' hrun' hflight
    have hget : (w.state.runs.modify runId fun run => { run with status })[other]? = some run' := hrun'
    rw [getElem?_modify_eq] at hget
    split_ifs at hget with hid
    · obtain ⟨run, hrun, rfl⟩ := Option.map_eq_some_iff.mp hget
      have hterminal : status.isTerminal = true := hop
      cases status <;> simp_all [RunStatus.isTerminal, isInFlight]
    · exact h.core.waits other run' hget hflight

/-- **An approval settles once, and a run waits exactly while one is pending.**  In every state reached from a quiet one:
a run in flight is waiting iff an approval of it is pending; the settlements that stand are of different approvals, which
were not decided at the start, and decide them; an allowed approval was allowed at the start or by an owner's decision
that is not a denial; a refused settlement changes nothing; and taking a settlement back restores the whole state. -/
theorem approvals_settle_once (hstart : start.Quiet) {w : World}
    (hw : Reaches (World.step host) World.Allowed (World.new start) w) :
    w.state.Waits ∧
      ((w.settlements.map Prod.fst).Nodup ∧
        (∀ id, w.state.Decided id ↔ start.Decided id ∨ id ∈ w.settlements.map Prod.fst) ∧
        ∀ id ∈ w.settlements.map Prod.fst, ¬start.Decided id) ∧
      (∀ (id : String) (a : ApprovalRequest), w.state.approvals.approvals[id]? = some a → a.status = .allowed →
        (∃ b : ApprovalRequest, start.approvals.approvals[id]? = some b ∧ b.status = .allowed) ∨
          ∃ decision, (id, .owner decision) ∈ w.settlements ∧ decision.kind ≠ .deny) ∧
      (∀ id settlement now ruleId e s',
        (DaemonState.settleApproval host id settlement now ruleId).call w.state = (.error e, s') → s' = w.state) ∧
      ∀ id settlement now ruleId settled s', w.state.approvals.rules[ruleId]? = none →
        (DaemonState.settleApproval host id settlement now ruleId).call w.state = (.ok settled, s') →
        s'.revertSettledApproval settled.undo = w.state := by
  have hsound : w.Sound start :=
    hw.invariant (World.sound_new hstart) fun _ op _ h hop => h.step op hop
  have hcore := hsound.core
  refine ⟨hcore.waits, ⟨hcore.once, hcore.decided, hcore.new⟩, hcore.allowed, ?_, ?_⟩
  · exact fun id settlement now ruleId e s' hcall => settleApproval_guarded.refused hcall
  · exact fun id settlement now ruleId settled s' hrule hcall => resettle_eq hcore hrule hcall

/-! A decision whose save fails is taken back, and the approval times out instead. -/

namespace Sample

/-- A host for which no call is dangerous and no record exact. -/
def sampleHost : Host :=
  { riskClass := fun _ => .exec, boundedArguments := fun _ => ("\x7b\x7d", false)
    suggestedMatcher := fun _ => .any, danger := fun _ _ => none, exactRecord := fun _ => false, order := fun rules => rules }

def sampleStart : DaemonState :=
  { runs := (∅ : Table String RunRecord).insert "run_1" { id := "run_1", agentId := "a", status := .running, stop := none }
    sessions := ∅, approvals := { approvals := ∅, rules := ∅ } }

def sampleAsk : ApprovalAsk :=
  { run := { agentId := "a", sessionId := "chat:a", runId := "run_1" }
    call := { id := "call_1", name := "bash", args := .nil }, timeoutMs := 1000 }

def decision : OwnerDecision := { kind := .allowOnce, note := none, matcher := none, revision := 1 }

/-- The world after each of the four transactions. -/
def opened : World := (World.new sampleStart).step sampleHost (.openApproval "apr_1" sampleAsk 5)

def decided : World := opened.step sampleHost (.settle "apr_1" (.owner decision) 6 "rule_1")

def takenBack : World := decided.step sampleHost .revertSettled

def timedOut : World := takenBack.step sampleHost (.settle "apr_1" .timedOut 1005 "rule_2")

theorem start_quiet : sampleStart.Quiet := by
  refine ⟨fun id a h => by simp [sampleStart] at h, fun id a h => by simp [sampleStart] at h, fun runId run hrun => ?_⟩
  have hget : ((∅ : Table String RunRecord).insert "run_1"
      { id := "run_1", agentId := "a", status := .running, stop := none })[runId]? = some run := hrun
  rw [getElem?_insert_eq] at hget
  split_ifs at hget
  · cases hget
    decide
  · simp at hget

theorem timedOut_reached : Reaches (World.step sampleHost) World.Allowed (World.new sampleStart) timedOut := by
  have hopened : Reaches (World.step sampleHost) World.Allowed (World.new sampleStart) opened :=
    Reaches.start.next _ ⟨by simp [World.new, sampleStart], fun key session h => by simp [World.new, sampleStart] at h⟩
  have hdecided : Reaches (World.step sampleHost) World.Allowed (World.new sampleStart) decided :=
    hopened.next _ (by decide +kernel : opened.state.approvals.rules["rule_1"]? = none)
  have htakenBack : Reaches (World.step sampleHost) World.Allowed (World.new sampleStart) takenBack :=
    hdecided.next Op.revertSettled trivial
  exact htakenBack.next _ (by decide +kernel : takenBack.state.approvals.rules["rule_2"]? = none)

end Sample

theorem sample_settles_once : Sample.timedOut.state.Waits ∧ Sample.timedOut.settlements = [("apr_1", .timedOut)] :=
  ⟨(approvals_settle_once Sample.start_quiet Sample.timedOut_reached).1, by decide +kernel⟩

end AnimaCore.Approvals
