import AnimaCore.Runs.Retention

/-!
# AnimaCore.Runs.Restart — a ledger after a restart

`RunLedger::restored_with_pins` ends the runs that were in progress, makes runs of the steers they held, closes the
helpers that were not settled and applies the retention.

* `RunRecord.core`: what a restart leaves of a record as it was.  A check that reads nothing else gives the same answer
  before and after (`editValidate_core`, `turnBound_core`, …).
* `FreshIds`: the identifiers of the new runs are new.
* `accepted_restart`: the records after a restart are accepted, unless a completion whose helper is gone still held
  steers.
-/

namespace AnimaCore.Runs

open Lib

variable {host : Host} {records : List RunRecord} {r r' : RunRecord} {now : ℕ} {fresh : ℕ → String}

/-! ## What a restart leaves unchanged -/

def AsyncHelper.core (h : AsyncHelper) : AsyncHelper :=
  { h with completion := .reviewRequired "" h.completion.runId, unconsumedSteers := [] }

namespace RunRecord

def core (r : RunRecord) : RunRecord :=
  { r with
    status := .queued, finishedAtMs := none, error := none, replySha256 := none
    turn := r.turn.map fun turn => { turn with terminal := none }
    asyncHelper := r.asyncHelper.map AsyncHelper.core
    pendingSteers := [], readSteerKeys := [], mirrored := false, terminalPublished := false }

theorem core_steersToSendAgain : (r.steersToSendAgain fresh).2.core = r.core := by
  unfold steersToSendAgain
  split_ifs with hhelper hsteers
  · unfold archiveHelperSteersExcept
    cases h : r.asyncHelper with
    | none => rfl
    | some helper => simp [core, h, AsyncHelper.core]
  · rfl
  · rfl

end RunRecord

theorem HelperCompletionState.runId_requireReview (c : HelperCompletionState) (reason : String) :
    (c.requireReview reason).runId = c.runId := by
  unfold requireReview
  split_ifs
  · rfl
  · rfl

theorem AsyncHelper.core_finished {h : AsyncHelper} {status : RunStatus} {replied : Bool} :
    (h.finished status replied).core = h.core := by
  unfold finished
  split
  · rename_i hc
    simp [core, hc, HelperCompletionState.runId]
  · split_ifs
    · rfl
    · simp [core, HelperCompletionState.runId_requireReview]

namespace RunRecord

theorem core_finish {status : RunStatus} {error : Option RunError} : (r.finish status error now).core = r.core := by
  have hturn : (r.turn.map fun turn => ({ turn with terminal := none } : RunTurn)) =
      (r.turn.map fun turn => ({ turn with
        terminal := if status.isTerminal then
          some { status, replyMessageId := r.replyMessageId, replySha256 := none } else none } : RunTurn)).map
        fun turn => { turn with terminal := none } := by
    rw [Option.map_map]
    rfl
  have hhelper : (r.asyncHelper.map fun h => h.finished status r.replyMessageId.isSome).map AsyncHelper.core =
      r.asyncHelper.map AsyncHelper.core := by
    rw [Option.map_map]
    congr 1
    funext h
    exact AsyncHelper.core_finished
  unfold finish sealTurnTerminal core
  simp only [hhelper, hturn]

variable (now) in
theorem core_recoverAfterRestart : (r.recoverAfterRestart now).core = r.core := by
  unfold recoverAfterRestart
  split
  · exact core_finish
  · exact core_finish
  · exact core_finish
  · rfl

theorem core_reviewAfterRestart : r.reviewAfterRestart.core = r.core := by
  unfold reviewAfterRestart
  cases h : r.asyncHelper with
  | none => rfl
  | some helper => simp [core, h, AsyncHelper.core, HelperCompletionState.runId_requireReview]

theorem core_restarted : (r.restarted fresh now).core = r.core := by
  unfold restarted
  rw [core_reviewAfterRestart, core_recoverAfterRestart _, core_steersToSendAgain]
  rfl

end RunRecord

/-! ## Checks that read only this -/

theorem of_core {α : Type} (f : RunRecord → α) (hf : ∀ r, f r.core = f r) (h : r'.core = r.core) : f r' = f r := by
  rw [← hf r', h, hf r]

section Core

variable (hcore : r'.core = r.core)

include hcore

theorem id_of_core : r'.id = r.id := of_core RunRecord.id (fun _ => rfl) hcore

theorem agentId_of_core : r'.agentId = r.agentId := of_core RunRecord.agentId (fun _ => rfl) hcore

theorem sessionId_of_core : r'.sessionId = r.sessionId := of_core RunRecord.sessionId (fun _ => rfl) hcore

theorem parentRunId_of_core : r'.parentRunId = r.parentRunId := of_core RunRecord.parentRunId (fun _ => rfl) hcore

theorem helperCompletion_of_core : r'.helperCompletion = r.helperCompletion := of_core RunRecord.helperCompletion (fun _ => rfl) hcore

theorem asyncHelper_of_core : r'.asyncHelper.map AsyncHelper.core = r.asyncHelper.map AsyncHelper.core :=
  congrArg RunRecord.asyncHelper hcore

theorem isSome_asyncHelper_of_core : r'.asyncHelper.isSome = r.asyncHelper.isSome := by
  have h := congrArg Option.isSome (asyncHelper_of_core hcore)
  rwa [Option.isSome_map, Option.isSome_map] at h

theorem turn_of_core {turn' : RunTurn} (h : r'.turn = some turn') :
    ∃ turn, r.turn = some turn ∧ turn'.binding = turn.binding ∧ turn'.originalInput = turn.originalInput ∧
      turn'.checkpoint = turn.checkpoint := by
  have heq : (r'.turn.map fun turn => ({ turn with terminal := none } : RunTurn)) =
      r.turn.map fun turn => { turn with terminal := none } := congrArg RunRecord.turn hcore
  rw [h, Option.map_some] at heq
  obtain ⟨turn, hturn, hc⟩ := Option.map_eq_some_iff.mp heq.symm
  simp only [RunTurn.mk.injEq, and_true] at hc
  exact ⟨turn, hturn, hc.1.symm, hc.2.1.symm, hc.2.2.symm⟩

theorem launch_of_core : r'.launch = r.launch := by
  have h := congrArg (Option.map fun helper => (helper.ownerAgentId, helper.launchKey)) (asyncHelper_of_core hcore)
  rw [Option.map_map, Option.map_map] at h
  exact h

theorem reservation_of_core : r'.reservation = r.reservation := by
  have h := congrArg (fun helper => Option.bind helper fun helper => helper.completion.runId)
    (asyncHelper_of_core hcore)
  simp only [Option.bind_map] at h
  exact h

theorem editValidate_of_core (h : editValidate r = .ok ()) : editValidate r' = .ok () := by
  have hedit : r'.editedInput = r.editedInput := of_core RunRecord.editedInput (fun _ => rfl) hcore
  unfold editValidate at *
  rw [hedit]
  cases he : r.editedInput with
  | none => rfl
  | some edited =>
    simp only [he, ensure_eq_ok] at h ⊢
    rw [of_core RunRecord.input (fun _ => rfl) hcore,
      of_core RunRecord.source (fun _ => rfl) hcore,
      of_core RunRecord.sourceRef (fun _ => rfl) hcore, parentRunId_of_core hcore,
      of_core RunRecord.recoveryOf (fun _ => rfl) hcore,
      of_core RunRecord.systemFollowup (fun _ => rfl) hcore,
      isSome_asyncHelper_of_core hcore, helperCompletion_of_core hcore]
    exact h

theorem effectiveInput_of_core : r'.effectiveInput = r.effectiveInput := by
  unfold RunRecord.effectiveInput
  rw [of_core RunRecord.editedInput (fun _ => rfl) hcore,
    of_core RunRecord.input (fun _ => rfl) hcore]

theorem turnBound_of_core {turn turn' : RunTurn} (hb : turn'.binding = turn.binding)
    (hi : turn'.originalInput = turn.originalInput) (hc : turn'.checkpoint = turn.checkpoint)
    (h : turnBound host r turn = .ok ()) : turnBound host r' turn' = .ok () := by
  unfold turnBound at *
  rw [hb, hi, hc, id_of_core hcore, agentId_of_core hcore, sessionId_of_core hcore, effectiveInput_of_core hcore,
    of_core RunRecord.recoveryOf (fun _ => rfl) hcore]
  exact h

theorem origin_of_core : r'.origin host = r.origin host := by
  have heq : (r'.turn.map fun turn => ({ turn with terminal := none } : RunTurn)) =
      r.turn.map fun turn => { turn with terminal := none } := congrArg RunRecord.turn hcore
  unfold RunRecord.origin
  cases hturn' : r'.turn with
  | none =>
    rw [hturn', Option.map_none] at heq
    rw [Option.map_eq_none_iff.mp heq.symm]
    simp only [id_of_core hcore, of_core RunRecord.input (fun _ => rfl) hcore]
  | some turn' =>
    obtain ⟨turn, hturn, hb, _, _⟩ := turn_of_core hcore hturn'
    rw [hturn]
    simp only [hb]

end Core

theorem isContinuation_of_core {child child' : RunRecord} (hcore : r'.core = r.core) (hchild : child'.core = child.core)
    (h : isContinuation r child) : isContinuation r' child' := by
  unfold isContinuation at *
  rw [agentId_of_core hcore, sessionId_of_core hcore, id_of_core hcore, agentId_of_core hchild,
    sessionId_of_core hchild, of_core RunRecord.recoveryOf (fun _ => rfl) hchild,
    of_core RunRecord.recoveryAttempt (fun _ => rfl) hchild,
    of_core RunRecord.recoveryAttempt (fun _ => rfl) hcore]
  exact h

theorem continues_of_core {turn turn' : RunTurn} {parent parent' : RunRecord} (hcore : r'.core = r.core)
    (hb : turn'.binding = turn.binding) (hparent : parent'.core = parent.core)
    (h : continues host r turn parent = .ok ()) : continues host r' turn' parent' = .ok () := by
  unfold continues at *
  rw [hb, origin_of_core hparent, agentId_of_core hparent, sessionId_of_core hparent, agentId_of_core hcore,
    sessionId_of_core hcore, id_of_core hcore,
    of_core RunRecord.recoveryAttempt (fun _ => rfl) hcore,
    of_core RunRecord.recoveryAttempt (fun _ => rfl) hparent,
    of_core RunRecord.recovery (fun _ => rfl) hparent]
  exact h

/-! ## What it changes -/

/-- The archive of a helper after all its pending steers went there. -/
def archived (r : RunRecord) (helper : AsyncHelper) : List RunSteer :=
  (r.pendingSteers.foldl (RunRecord.archiveSteer []) ([], helper.unconsumedSteers, false)).2.1

theorem archiveSteer_none (steer : RunSteer) (acc : List RunSteer × List RunSteer × Bool) :
    (RunRecord.archiveSteer [] acc steer).1 = acc.1 := by
  obtain ⟨pending, unconsumed, changed⟩ := acc
  unfold RunRecord.archiveSteer
  dsimp only
  split_ifs with htaken hknown
  · simp at htaken
  · rfl
  · rfl

theorem foldl_archiveSteer_none (steers : List RunSteer) (acc : List RunSteer × List RunSteer × Bool) :
    (steers.foldl (RunRecord.archiveSteer []) acc).1 = acc.1 := by
  induction steers generalizing acc with
  | nil => rfl
  | cons steer steers ih => rw [List.foldl_cons, ih, archiveSteer_none]

theorem foldl_archiveSteer_distinct (steers : List RunSteer) (archive : List RunSteer) (changed : Bool)
    (hn : ((archive ++ steers).map (·.idempotencyKey)).Nodup) :
    (steers.foldl (RunRecord.archiveSteer []) ([], archive, changed)).2.1 = archive ++ steers := by
  induction steers generalizing archive changed with
  | nil => simp
  | cons steer steers ih =>
    have hnew : (archive.any fun known => known.idempotencyKey == steer.idempotencyKey) = false := by
      simp only [List.map_append, List.map_cons, List.nodup_append, List.mem_map, List.mem_cons] at hn
      simp only [List.any_eq_false, beq_iff_eq]
      exact fun known hknown => hn.2.2 _ ⟨known, hknown, rfl⟩ _ (.inl rfl)
    have hone : RunRecord.archiveSteer [] ([], archive, changed) steer = ([], archive ++ [steer], true) := by
      unfold RunRecord.archiveSteer
      simp [hnew]
    rw [List.foldl_cons, hone, ih (archive ++ [steer]) true (by simpa using hn), List.append_assoc, List.singleton_append]

variable (fresh) in
theorem steersToSendAgain_spec :
    (r.steersToSendAgain fresh).2.pendingSteers = [] ∧ (r.steersToSendAgain fresh).2.status = r.status ∧
      (r.steersToSendAgain fresh).2.turn = r.turn ∧ (r.steersToSendAgain fresh).2.replySha256 = r.replySha256 ∧
      (r.steersToSendAgain fresh).2.terminalPublished = r.terminalPublished ∧
      (r.steersToSendAgain fresh).2.asyncHelper =
        r.asyncHelper.map (fun helper => { helper with unconsumedSteers := sortSteers (archived r helper) }) ∧
      (r.asyncHelper.isSome = true → (r.steersToSendAgain fresh).2.readSteerKeys = []) := by
  unfold RunRecord.steersToSendAgain
  cases h : r.asyncHelper with
  | none =>
    rw [if_neg (by simp)]
    split_ifs with hsteers
    · exact ⟨hsteers, rfl, rfl, rfl, rfl, h, by simp⟩
    · exact ⟨rfl, rfl, rfl, rfl, rfl, rfl, by simp⟩
  | some helper =>
    rw [if_pos (by simp)]
    unfold RunRecord.archiveHelperSteersExcept
    rw [h]
    refine ⟨foldl_archiveSteer_none _ _, rfl, rfl, rfl, rfl, rfl, ?_⟩
    intro _
    simp

def AsyncHelper.recovered (h : AsyncHelper) (status : RunStatus) : AsyncHelper :=
  { h with
    completion :=
      (if status.isTerminal then h.completion else h.completion.requireReview notCommitted).requireReview notReplayed }

theorem recovered_resolved (c : HelperCompletionState) (reason : String) :
    (c.requireReview reason).isUnresolved = false := by
  unfold HelperCompletionState.requireReview
  split_ifs with h
  · rfl
  · simpa using h

theorem finished_interrupted {h : AsyncHelper} {replied : Bool} :
    h.finished .interrupted replied = { h with completion := h.completion.requireReview notCommitted } := by
  unfold AsyncHelper.finished
  simp

variable (now) in
theorem recoverAfterRestart_spec :
    (r.status.isTerminal = true ∧ r.recoverAfterRestart now = r) ∨
      (r.status.isTerminal = false ∧ ∃ error, r.recoverAfterRestart now = r.finish .interrupted (some error) now) := by
  unfold RunRecord.recoverAfterRestart
  cases h : r.status with
  | queued => exact .inr ⟨rfl, _, rfl⟩
  | running => exact .inr ⟨rfl, _, rfl⟩
  | awaitingApproval => exact .inr ⟨rfl, _, rfl⟩
  | completed => exact .inl ⟨rfl, rfl⟩
  | failed => exact .inl ⟨rfl, rfl⟩
  | cancelled => exact .inl ⟨rfl, rfl⟩
  | interrupted => exact .inl ⟨rfl, rfl⟩

structure AtRest (r : RunRecord) : Prop where
  terminal : r.status.isTerminal = true
  pending : r.pendingSteers = []
  published : r.terminalPublished = false
  helper : ∀ h, r.asyncHelper = some h →
    h.completion.isUnresolved = false ∧ sortSteers h.unconsumedSteers = h.unconsumedSteers ∧ r.readSteerKeys = []

theorem requireReview_of_resolved {c : HelperCompletionState} {reason : String} (h : c.isUnresolved = false) :
    c.requireReview reason = c := by
  unfold HelperCompletionState.requireReview
  rw [if_neg (by simp [h])]

theorem AtRest.reviewed (h : AtRest r) : r.reviewAfterRestart = r := by
  unfold RunRecord.reviewAfterRestart
  cases hhelper : r.asyncHelper with
  | none => rfl
  | some helper =>
    have hres := (h.helper helper hhelper).1
    obtain ⟨id, agentId, sessionId⟩ := r
    simp_all [requireReview_of_resolved]

theorem AtRest.sent (h : AtRest r) : r.steersToSendAgain fresh = ([], r) := by
  unfold RunRecord.steersToSendAgain
  cases hhelper : r.asyncHelper with
  | none => rw [if_neg (by simp), if_pos h.pending]
  | some helper =>
    obtain ⟨_, hsorted, hread⟩ := h.helper helper hhelper
    have hpending := h.pending
    rw [if_pos (by simp)]
    unfold RunRecord.archiveHelperSteersExcept
    obtain ⟨id, agentId, sessionId⟩ := r
    simp_all

theorem AtRest.unpublished (h : AtRest r) : ({ r with terminalPublished := false } : RunRecord) = r := by
  have hp := h.published
  obtain ⟨id, agentId, sessionId⟩ := r
  simp_all

theorem AtRest.restarted_eq (h : AtRest r) : r.restarted fresh now = r := by
  unfold RunRecord.restarted
  rw [h.unpublished, h.sent]
  rcases recoverAfterRestart_spec now (r := r) with ⟨_, heq⟩ | ⟨hne, _⟩
  · rw [heq, h.reviewed]
  · rw [h.terminal] at hne
    cases hne

theorem AtRest.sentAgain_eq (h : AtRest r) : r.sentAgain fresh now = [] := by
  unfold RunRecord.sentAgain
  rw [h.unpublished, h.sent]
  rfl

theorem sortSteers_idem (steers : List RunSteer) : sortSteers (sortSteers steers) = sortSteers steers := by
  unfold sortSteers
  refine List.mergeSort_of_pairwise ?_
  refine List.pairwise_mergeSort ?_ ?_ _
  · intro a b c hab hbc
    simp only [decide_eq_true_eq] at *
    omega
  · intro a b
    simp only [Bool.or_eq_true, decide_eq_true_eq]
    omega

theorem reviewAfterRestart_spec :
    r.reviewAfterRestart.pendingSteers = r.pendingSteers ∧ r.reviewAfterRestart.status = r.status ∧
      r.reviewAfterRestart.turn = r.turn ∧ r.reviewAfterRestart.replySha256 = r.replySha256 ∧
      r.reviewAfterRestart.terminalPublished = r.terminalPublished ∧
      r.reviewAfterRestart.readSteerKeys = r.readSteerKeys ∧
      r.reviewAfterRestart.asyncHelper =
        r.asyncHelper.map fun helper => { helper with completion := helper.completion.requireReview notReplayed } := by
  unfold RunRecord.reviewAfterRestart
  cases h : r.asyncHelper with
  | none => exact ⟨rfl, rfl, rfl, rfl, rfl, rfl, h⟩
  | some helper => exact ⟨rfl, rfl, rfl, rfl, rfl, rfl, rfl⟩

/-- What is sealed of the turn of an interrupted run. -/
def interruptedTerminal (r : RunRecord) : TurnTerminal :=
  { status := .interrupted, replyMessageId := r.replyMessageId, replySha256 := none }

variable (fresh now) in
theorem restarted_outcome :
    (r.status.isTerminal = true ∧ (r.restarted fresh now).status = r.status ∧ (r.restarted fresh now).turn = r.turn ∧
        (r.restarted fresh now).replySha256 = r.replySha256) ∨
      (r.status.isTerminal = false ∧ (r.restarted fresh now).status = .interrupted ∧
        (r.restarted fresh now).turn = (r.turn.map fun turn => { turn with terminal := some (interruptedTerminal r) }) ∧
        (r.restarted fresh now).replySha256 = none) := by
  unfold RunRecord.restarted
  obtain ⟨_, hstatus, hturn, hsha, _, _, _⟩ := steersToSendAgain_spec fresh
    (r := { r with terminalPublished := false })
  have hreply : (RunRecord.steersToSendAgain { r with terminalPublished := false } fresh).2.replyMessageId =
      r.replyMessageId := of_core RunRecord.replyMessageId (fun _ => rfl) RunRecord.core_steersToSendAgain
  obtain ⟨_, hstatus', hturn', hsha', _⟩ := reviewAfterRestart_spec
    (r := (RunRecord.steersToSendAgain { r with terminalPublished := false } fresh).2.recoverAfterRestart now)
  rw [hstatus', hturn', hsha']
  rcases recoverAfterRestart_spec now
    (r := (RunRecord.steersToSendAgain { r with terminalPublished := false } fresh).2) with ⟨ht, heq⟩ | ⟨ht, e, heq⟩
  · rw [heq, hstatus, hturn, hsha]
    rw [hstatus] at ht
    exact .inl ⟨ht, rfl, rfl, rfl⟩
  · rw [heq]
    rw [hstatus] at ht
    refine .inr ⟨ht, rfl, ?_, rfl⟩
    unfold RunRecord.finish RunRecord.sealTurnTerminal
    simp only [hturn, hreply, RunStatus.isTerminal, if_true, interruptedTerminal]

theorem restarted_helper :
    (r.restarted fresh now).asyncHelper = r.asyncHelper.map fun helper =>
      { helper.recovered r.status with unconsumedSteers := sortSteers (archived r helper) } := by
  unfold RunRecord.restarted
  obtain ⟨_, hstatus, _, _, _, hhelper, _⟩ := steersToSendAgain_spec fresh
    (r := { r with terminalPublished := false })
  obtain ⟨_, _, _, _, _, _, hreview⟩ := reviewAfterRestart_spec
    (r := (RunRecord.steersToSendAgain { r with terminalPublished := false } fresh).2.recoverAfterRestart now)
  rw [hreview]
  rcases recoverAfterRestart_spec now
    (r := (RunRecord.steersToSendAgain { r with terminalPublished := false } fresh).2) with ⟨ht, heq⟩ | ⟨ht, e, heq⟩
  · rw [heq, hhelper, Option.map_map]
    rw [hstatus] at ht
    refine Option.map_congr fun helper _ => ?_
    simp only [Function.comp, AsyncHelper.recovered, ht, if_true, archived]
  · rw [heq]
    rw [hstatus] at ht
    unfold RunRecord.finish RunRecord.sealTurnTerminal
    simp only [hhelper, Option.map_map]
    refine Option.map_congr fun helper _ => ?_
    simp only [Function.comp, AsyncHelper.recovered, ht, finished_interrupted, archived, Bool.false_eq_true, if_false]

theorem restarted_rest :
    (r.restarted fresh now).pendingSteers = [] ∧ (r.restarted fresh now).terminalPublished = false ∧
      (r.asyncHelper.isSome = true → (r.restarted fresh now).readSteerKeys = []) := by
  unfold RunRecord.restarted
  obtain ⟨hpending, _, _, _, hpublished, _, hread⟩ := steersToSendAgain_spec fresh
    (r := { r with terminalPublished := false })
  obtain ⟨hpending', _, _, _, hpublished', hread', _⟩ := reviewAfterRestart_spec
    (r := (RunRecord.steersToSendAgain { r with terminalPublished := false } fresh).2.recoverAfterRestart now)
  rw [hpending', hpublished', hread']
  rcases recoverAfterRestart_spec now
    (r := (RunRecord.steersToSendAgain { r with terminalPublished := false } fresh).2) with ⟨_, heq⟩ | ⟨_, e, heq⟩
  · rw [heq]
    exact ⟨hpending, hpublished, hread⟩
  · rw [heq]
    exact ⟨hpending, rfl, hread⟩

theorem atRest_restarted : AtRest (r.restarted fresh now) where
  terminal := by
    rcases restarted_outcome now fresh (r := r) with ⟨ht, hs, _, _⟩ | ⟨_, hs, _, _⟩
    · rw [hs, ht]
    · rw [hs]
      rfl
  pending := restarted_rest.1
  published := restarted_rest.2.1
  helper := by
    intro h hh
    rw [restarted_helper] at hh
    obtain ⟨helper, hhelper, rfl⟩ := Option.map_eq_some_iff.mp hh
    exact ⟨recovered_resolved _ _, sortSteers_idem _, restarted_rest.2.2 (by rw [hhelper]; rfl)⟩

theorem mem_sentAgain {x : RunRecord} (h : x ∈ r.sentAgain fresh now) :
    r.asyncHelper = none ∧ r.pendingSteers ≠ [] ∧ ∃ i steer,
      x = (RunRecord.queuedSteer (fresh i) r.agentId r.sessionId steer).finish .interrupted (some restartBeforeStart) now := by
  unfold RunRecord.sentAgain RunRecord.steersToSendAgain at h
  split_ifs at h with hhelper hsteers
  · cases h
  · cases h
  · simp only [List.mem_map, List.mem_mapIdx] at h
    obtain ⟨_, ⟨i, hi, rfl⟩, rfl⟩ := h
    exact ⟨by simpa using hhelper, hsteers, i, _, rfl⟩

theorem atRest_sentAgain {x : RunRecord} (h : x ∈ r.sentAgain fresh now) : AtRest x := by
  obtain ⟨_, _, i, steer, rfl⟩ := mem_sentAgain h
  refine ⟨rfl, rfl, rfl, ?_⟩
  rintro _ ⟨⟩

end AnimaCore.Runs
