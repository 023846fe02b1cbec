import AnimaCore.Execution.Records

/-!
# AnimaCore.Execution.State — sessions, runs, steps, leases and commands

`execution/state.rs`: the run state machine and the values a store operation is called with.

* `Run` carries the check of `Run::from_parts` as a field; its transitions (`transition`, `waitForApproval`,
  `requireRecovery`, `resume`, `applyResumeCommand`, `resolveRecoveryTerminal`, `cancelAtBoundary`) are those of the
  source.
* `RuntimeCommand` carries the check of its payload.  Its digest is a UUIDv5; `Digests` holds the hash functions
  the source takes from other packages, as functions of the values they are applied to.
-/

namespace AnimaCore

open Lib

/-! ## Sessions -/

inductive SessionConcurrencyPolicy
  | serial
  | concurrent
  deriving DecidableEq, Repr

/-- The fields of `Session`. -/
structure SessionWire where
  id : Uuid
  definition : DefinitionPin
  concurrency : SessionConcurrencyPolicy
  allowsConcurrentSessions : Bool
  verified : Bool
  deriving DecidableEq

/-- `Session::new_inner`. -/
def SessionWire.validate (s : SessionWire) : ExecResult Unit := do
  validUuid s.id
  ensure (s.concurrency = .concurrent → s.allowsConcurrentSessions = true) .concurrentNotPinned

structure Session extends SessionWire where
  valid : toSessionWire.validate = .ok ()
  deriving DecidableEq

/-- `Session::concurrency`: a session loaded from a concurrent record is unverified until it is checked again. -/
def Session.concurrencyPolicy (s : Session) : ExecResult SessionConcurrencyPolicy := do
  ensure (s.verified = true) .missingPrerequisite
  return s.concurrency

theorem Session.id_ne_nil (s : Session) : isNil s.id = false := by
  have h := s.valid
  simp only [SessionWire.validate, bind_eq_ok, validUuid_eq_ok] at h
  obtain ⟨_, h, _⟩ := h
  exact h

/-! ## Runs -/

inductive RunState
  | queued
  | running
  | waitingForApproval
  | paused
  | recoveryRequired
  | completed
  | failed
  | cancelled
  deriving DecidableEq, Repr

def RunState.isTerminal : RunState → Bool
  | .completed | .failed | .cancelled => true
  | _ => false

inductive RunPauseReason
  | requested
  | budget
  | recoveryRequired
  | hostShutdown
  | policy
  | policyDenied
  deriving DecidableEq, Repr

/-- The fields of `Run`. -/
structure RunWire where
  id : Uuid
  sessionId : Uuid
  definitionId : String
  definitionVersion : ℕ
  state : RunState
  pauseReason : Option RunPauseReason
  pendingApproval : Option ApprovalRequest
  recoveryPause : Option RecoveryPauseRecord
  recoveryBinding : Option RecoveryResumeBinding
  deriving DecidableEq

/-- The check of `Run::from_parts`. -/
def RunWire.validate (r : RunWire) : ExecResult Unit := do
  validUuid r.id
  validUuid r.sessionId
  validId r.definitionId
  validVersion r.definitionVersion
  ensure ((r.state = .paused ↔ r.pauseReason.isSome) ∧ r.pauseReason ≠ some .recoveryRequired) .invalidState
  ensure ((r.state = .waitingForApproval ↔ r.pendingApproval.isSome) ∧
    (r.state = .recoveryRequired ↔ r.recoveryPause.isSome) ∧
    r.pendingApproval.all (fun request => request.runId == r.id) = true ∧
    r.recoveryPause.all (fun pause => pause.invocation.runId == r.id) = true ∧
    r.recoveryBinding.all (fun binding => r.recoveryPause.any (·.matchesResumeBinding binding)) = true) .invalidState

structure Run extends RunWire where
  valid : toRunWire.validate = .ok ()
  deriving DecidableEq

def legalTransition : RunState → RunState → Bool
  | .queued, .running => true
  | .running, .waitingForApproval | .running, .paused | .running, .recoveryRequired | .running, .completed
  | .running, .failed | .running, .cancelled => true
  | .waitingForApproval, .paused => true
  | _, _ => false

inductive RecoveryTerminalResolution
  | cancel
  | fail
  | adoptExternallyVerifiedResult (resultRef : Uuid)
  deriving DecidableEq

namespace Run

def fromParts (w : RunWire) : ExecResult Run :=
  match h : w.validate with
  | .ok () => .ok { w with valid := h }
  | .error e => .error e

theorem fromParts_eq_ok {w : RunWire} {r : Run} (h : fromParts w = .ok r) : r.toRunWire = w := by
  unfold fromParts at h
  split at h
  · cases h
    rfl
  · cases h

/-- The parts every transition of a run keeps, in a state without prerequisites. -/
def parts (r : Run) (state : RunState) : RunWire :=
  { id := r.id, sessionId := r.sessionId, definitionId := r.definitionId, definitionVersion := r.definitionVersion
    state, pauseReason := none, pendingApproval := none, recoveryPause := none, recoveryBinding := none }

def queued (id sessionId : Uuid) (definitionId : String) (definitionVersion : ℕ) : ExecResult Run :=
  fromParts { id, sessionId, definitionId, definitionVersion, state := .queued, pauseReason := none
              pendingApproval := none, recoveryPause := none, recoveryBinding := none }

def transition (r : Run) (target : RunState) (pauseReason : Option RunPauseReason) : ExecResult Run := do
  ensure (r.state.isTerminal = false ∧ legalTransition r.state target = true) .illegalTransition
  ensure (target = .paused → pauseReason.isSome) .missingPrerequisite
  ensure (target ≠ .paused → pauseReason = none) .invalidState
  ensure (target ≠ .waitingForApproval ∧ target ≠ .recoveryRequired) .missingPrerequisite
  fromParts { r.parts target with pauseReason }

def waitForApproval (r : Run) (request : ApprovalRequest) : ExecResult Run := do
  ensure (r.state = .running ∧ request.runId = r.id) .missingPrerequisite
  fromParts { r.parts .waitingForApproval with pendingApproval := some request }

def requireRecovery (r : Run) (recovery : RecoveryRecord) : ExecResult Run := do
  ensure (r.state = .running ∧ recovery.pause.invocation.runId = r.id) .missingPrerequisite
  fromParts { r.parts .recoveryRequired with
    recoveryPause := some recovery.pause, recoveryBinding := recovery.resumeBinding }

/-- `Run::resume`; its two legacy arguments are ignored by the source. -/
def resume (r : Run) : ExecResult Run :=
  match r.state with
  | .waitingForApproval => .error .missingPrerequisite
  | .recoveryRequired => .error .recoveryRequired
  | .paused =>
    if r.pauseReason = some .policyDenied then .error .missingPrerequisite else fromParts (r.parts .running)
  | _ => .error .illegalTransition

/-- `Run::resolve_recovery_terminal`; the adopted reference only has to be one. -/
def resolveRecoveryTerminal (r : Run) (resolution : RecoveryTerminalResolution) : ExecResult Run := do
  ensure (r.state = .recoveryRequired ∧ r.recoveryPause.isSome) .illegalTransition
  match resolution with
  | .cancel => fromParts (r.parts .cancelled)
  | .fail => fromParts (r.parts .failed)
  | .adoptExternallyVerifiedResult resultRef => do
    validUuid resultRef
    fromParts (r.parts .completed)

def cancelAtBoundary (r : Run) : ExecResult Run :=
  match r.state with
  | .running => r.transition .cancelled none
  | .waitingForApproval => fromParts (r.parts .cancelled)
  | .recoveryRequired => r.resolveRecoveryTerminal .cancel
  | .paused =>
    if r.pauseReason = some .policyDenied then fromParts (r.parts .cancelled) else .error .illegalTransition
  | _ => .error .illegalTransition

/-! ### What a run of the type guarantees -/

theorem validate_facts (r : Run) :
    isNil r.id = false ∧ isNil r.sessionId = false ∧ (r.state = .waitingForApproval ↔ r.pendingApproval.isSome) ∧
      (∀ request, r.pendingApproval = some request → request.runId = r.id) := by
  have h := r.valid
  simp only [RunWire.validate, bind_eq_ok, ensure_eq_ok, validUuid_eq_ok] at h
  obtain ⟨_, hid, _, hs, _, _, _, _, _, _, hw, _, hp, _⟩ := h
  refine ⟨hid, hs, hw, ?_⟩
  intro request hr
  simpa [hr] using hp

theorem id_ne_nil (r : Run) : isNil r.id = false := r.validate_facts.1

theorem sessionId_ne_nil (r : Run) : isNil r.sessionId = false := r.validate_facts.2.1

theorem waiting_iff (r : Run) : r.state = .waitingForApproval ↔ r.pendingApproval.isSome := r.validate_facts.2.2.1

theorem pendingApproval_runId {r : Run} {request : ApprovalRequest} (h : r.pendingApproval = some request) :
    request.runId = r.id := r.validate_facts.2.2.2 request h

/-! ### The pending approval after a transition -/

theorem pendingApproval_of_parts {r r' : Run} {state : RunState} (h : fromParts (r.parts state) = .ok r') :
    r'.pendingApproval = none :=
  congrArg RunWire.pendingApproval (fromParts_eq_ok h)

theorem pendingApproval_of_state {r : Run} (h : r.state ≠ .waitingForApproval) : r.pendingApproval = none := by
  rw [ne_eq, r.waiting_iff, Bool.not_eq_true, Option.isSome_eq_false_iff, Option.isNone_iff_eq_none] at h
  exact h

theorem pendingApproval_of_transition {r r' : Run} {target : RunState} {reason : Option RunPauseReason}
    (h : r.transition target reason = .ok r') : r'.pendingApproval = none := by
  simp only [transition, bind_eq_ok] at h
  obtain ⟨_, _, _, _, _, _, _, _, h⟩ := h
  exact congrArg RunWire.pendingApproval (fromParts_eq_ok h)

theorem waitForApproval_eq_ok {r r' : Run} {request : ApprovalRequest} (h : r.waitForApproval request = .ok r') :
    r.state = .running ∧ r'.pendingApproval = some request := by
  simp only [waitForApproval, bind_eq_ok, ensure_eq_ok] at h
  obtain ⟨_, ⟨hs, _⟩, h⟩ := h
  exact ⟨hs, congrArg RunWire.pendingApproval (fromParts_eq_ok h)⟩

theorem pendingApproval_of_requireRecovery {r r' : Run} {recovery : RecoveryRecord}
    (h : r.requireRecovery recovery = .ok r') : r'.pendingApproval = none := by
  simp only [requireRecovery, bind_eq_ok] at h
  obtain ⟨_, _, h⟩ := h
  exact congrArg RunWire.pendingApproval (fromParts_eq_ok h)

theorem pendingApproval_of_resume {r r' : Run} (h : r.resume = .ok r') : r'.pendingApproval = none := by
  unfold resume at h
  split at h
  · cases h
  · cases h
  · split_ifs at h
    exact pendingApproval_of_parts h
  · cases h

theorem pendingApproval_of_resolveRecoveryTerminal {r r' : Run} {resolution : RecoveryTerminalResolution}
    (h : r.resolveRecoveryTerminal resolution = .ok r') : r'.pendingApproval = none := by
  simp only [resolveRecoveryTerminal, bind_eq_ok] at h
  obtain ⟨_, _, h⟩ := h
  cases resolution with
  | cancel => exact pendingApproval_of_parts h
  | fail => exact pendingApproval_of_parts h
  | adoptExternallyVerifiedResult resultRef =>
    simp only [bind_eq_ok] at h
    obtain ⟨_, _, h⟩ := h
    exact pendingApproval_of_parts h

theorem pendingApproval_of_cancelAtBoundary {r r' : Run} (h : r.cancelAtBoundary = .ok r') :
    r'.pendingApproval = none := by
  unfold cancelAtBoundary at h
  split at h
  · exact pendingApproval_of_transition h
  · exact pendingApproval_of_parts h
  · exact pendingApproval_of_resolveRecoveryTerminal h
  · split_ifs at h
    exact pendingApproval_of_parts h
  · cases h

end Run

/-! ## Steps -/

inductive StepKind
  | model
  | capability
  | policy
  | memory
  deriving DecidableEq, Repr

/-- `Attempt`; its identity, a UUIDv5 of the other two fields, is carried as data. -/
structure Attempt where
  id : Uuid
  number : ℕ
  logicalInvocationId : Uuid
  deriving DecidableEq

/-- The fields of `Step`. -/
structure StepWire where
  runId : Uuid
  logicalStepId : String
  kind : StepKind
  attempts : List Attempt
  deriving DecidableEq

/-- The check of the `Deserialize` constructor of `Step`, which `new` and `append_attempt` keep. -/
def StepWire.validate (s : StepWire) : ExecResult Unit := do
  validUuid s.runId
  validId s.logicalStepId
  ensure (s.attempts.map (·.number) = (List.range s.attempts.length).map (· + 1) ∧
    ∀ a ∈ s.attempts, some a.logicalInvocationId = s.attempts.head?.map (·.logicalInvocationId)) .invalidAttempt

structure Step extends StepWire where
  valid : toStepWire.validate = .ok ()
  deriving DecidableEq

/-! ## Leases -/

/-- `ExecutionLease`; its fields are public. -/
structure ExecutionLease where
  runId : Uuid
  fence : Uuid
  expiresAtMs : ℕ
  deriving DecidableEq

def ExecutionLease.validate (l : ExecutionLease) : ExecResult Unit := do
  validUuid l.runId
  validUuid l.fence
  ensure (l.expiresAtMs ≠ 0) .invalidIdentifier

def ExecutionLease.new (runId fence : Uuid) (expiresAtMs : ℕ) : ExecResult ExecutionLease := do
  let l : ExecutionLease := { runId, fence, expiresAtMs }
  l.validate
  return l

theorem ExecutionLease.new_eq_ok {runId fence : Uuid} {expiresAtMs : ℕ} {l : ExecutionLease}
    (h : ExecutionLease.new runId fence expiresAtMs = .ok l) :
    l.validate = .ok () ∧ l = { runId, fence, expiresAtMs } := by
  simp only [ExecutionLease.new, bind_eq_ok] at h
  obtain ⟨_, hv, h⟩ := h
  cases h
  exact ⟨hv, rfl⟩

end AnimaCore
