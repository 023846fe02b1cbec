import AnimaCore.Execution.Checkpoint
import AnimaCore.Lib.Machine
import AnimaCore.Lib.Table

/-!
# AnimaCore.ExecutionLimits — shared admission accounting

`execution_limits.rs`: an `ExecutionScope` records reservations of model attempts and tool calls against one shared
budget.  `reserve` admits an operation, `settle` reports what it used; what is charged is recomputed from all the
reservations on every admission.

* A call that fails leaves the scope as it was: the source works on a clone and assigns it last.  `apply` is one call
  with its reply.
* A failed `unwrap` and an underflowing subtraction are the fault `panicked`, so that their absence is a statement.
* `u64` counters are natural numbers; the additions the source checks go through `checkedAdd`.
-/

namespace AnimaCore

open Lib

def maxExecutionReservations : ℕ := 8192

/-- How a call ends without a value: an error text, or a panic. -/
inductive LimitsFault
  | rejected (message : String)
  | panicked
  deriving DecidableEq, Repr

/-- `Result<T, String>`. -/
abbrev LimitsResult (α : Type) := Except LimitsFault α

/-- `impl Display for ExecutionError`. -/
def ExecutionErrorCode.message : ExecutionErrorCode → String
  | .invalidIdentifier => "execution identifier is invalid"
  | .invalidVersion => "execution version is invalid"
  | .invalidState => "execution state is invalid"
  | .illegalTransition => "execution transition is not allowed"
  | .missingPrerequisite => "execution prerequisite is missing"
  | .recoveryRequired => "recovery authorization is required"
  | .invalidAttempt => "execution attempt is invalid"
  | .concurrentNotPinned => "concurrent sessions require a pinned definition setting"
  | .commandConflict => "command identifier conflicts with its canonical payload"
  | .arithmeticOverflow => "execution arithmetic overflowed"
  | .invalidUsage => "execution usage is inconsistent"
  | .invalidBudget => "execution budget is invalid"
  | .budgetExceeded => "execution budget is exhausted"
  | .invalidCheckpoint => "execution checkpoint is invalid"
  | .incompatibleCheckpoint => "execution checkpoint is incompatible"
  | .invalidEvent => "execution event is invalid"

/-- `map_err(|e| e.to_string())`. -/
def ExecResult.toLimits {α : Type} (r : ExecResult α) : LimitsResult α :=
  match r with
  | .ok a => .ok a
  | .error e => .error (.rejected e.message)

@[simp] theorem toLimits_eq_ok {α : Type} {r : ExecResult α} {a : α} : ExecResult.toLimits r = .ok a ↔ r = .ok a := by
  cases r <;> simp [ExecResult.toLimits]

/-! ## Budgets -/

inductive BudgetDecision
  | continue_
  | requireApproval
  | exhausted
  deriving DecidableEq, Repr

/-- The pairs of a used amount and its maximum that `Budget::evaluate` compares. -/
def Budget.pairs (b : Budget) (u : Usage) : List (ℕ × Option ℕ) :=
  [(u.wallTimeMs, b.maxWallTimeMs), (u.turns, b.maxTurns), (u.capabilitySteps, b.maxCapabilitySteps),
    (u.inputTokens, b.maxInputTokens), (u.outputTokens, b.maxOutputTokens), (u.totalTokens, b.maxTotalTokens),
    (u.estimatedCostMicros, b.maxEstimatedCostMicros), (u.concurrentRuns, b.maxConcurrentRuns),
    (u.artifactBytes, b.maxArtifactBytes), (u.downloadBytes, b.maxDownloadBytes)]

def Budget.evaluate (b : Budget) (u : Usage) : ExecResult BudgetDecision := do
  b.validate
  u.validate
  if (b.pairs u).any fun p => p.2.any fun m => decide (m < p.1) then return .exhausted
  else if b.requireApprovalAtPercent.any fun percent =>
      (b.pairs u).any fun p => p.2.any fun m => decide (m * percent ≤ p.1 * 100) then return .requireApproval
  else return .continue_

structure ExecutionLimits where
  budget : Budget
  maxModelAttempts : ℕ
  maxToolCalls : ℕ
  maxRetries : ℕ
  maxInflightOperations : ℕ
  deriving DecidableEq

def ExecutionLimits.validate (l : ExecutionLimits) : LimitsResult Unit := do
  l.budget.validate.toLimits
  ensure (l.maxModelAttempts ≠ 0 ∧
    (checkedAdd 64 l.maxModelAttempts l.maxToolCalls).any (fun n => decide (n ≤ maxExecutionReservations)) = true ∧
    l.maxRetries ≤ l.maxModelAttempts ∧ l.maxInflightOperations ≠ 0 ∧ l.maxInflightOperations ≤ 256 ∧
    l.budget.maxWallTimeMs.isSome ∧ l.budget.maxInputTokens.isSome ∧ l.budget.maxOutputTokens.isSome ∧
    l.budget.maxTotalTokens.isSome)
    (.rejected "Execution limits must be finite, positive and bounded")

/-! ## Reservations -/

inductive ExecutionOperation
  | modelAttempt
  | tool
  deriving DecidableEq, Repr

structure TokenUsage where
  promptTokens : ℕ := 0
  completionTokens : ℕ := 0
  totalTokens : ℕ := 0
  cachedPromptTokens : ℕ := 0
  reasoningTokens : ℕ := 0
  deriving DecidableEq, Repr

/-- `validate_id`. -/
def validateExecutionId (id : String) : LimitsResult Unit :=
  ensure (trimmedEmpty id = false ∧ id.utf8ByteSize ≤ 256 ∧ id.toList.any isControl = false)
    (.rejected "Invalid execution identity")

structure ReservationRequest where
  id : String
  runId : String
  logicalCallId : String
  operation : ExecutionOperation
  inputTokens : ℕ
  outputTokens : ℕ
  deriving DecidableEq

def ReservationRequest.validate (r : ReservationRequest) : LimitsResult Unit := do
  validateExecutionId r.id
  validateExecutionId r.runId
  validateExecutionId r.logicalCallId
  ensure (¬((r.operation = .tool ∧ (r.inputTokens ≠ 0 ∨ r.outputTokens ≠ 0)) ∨
    (r.operation = .modelAttempt ∧ (r.inputTokens = 0 ∨ r.outputTokens = 0))))
    (.rejected "Invalid execution token reservation")
  let _ ← okOr (checkedAdd 64 r.inputTokens r.outputTokens) (.rejected "Execution token reservation overflow")

inductive SettlementOutcome
  | known (usage : TokenUsage)
  | unknown (observed : Option TokenUsage)
  | provenNeverSent
  deriving DecidableEq

/-- The outcome carries a model usage other than the zero one. -/
def SettlementOutcome.settlesUsage : SettlementOutcome → Bool
  | .known usage => usage != {}
  | _ => false

structure ReservationSettlement where
  reservationId : String
  outcome : SettlementOutcome
  physicalRetired : Bool
  observedUsage : Option TokenUsage
  deriving DecidableEq

structure ExecutionReservation where
  request : ReservationRequest
  settlement : Option ReservationSettlement
  observedUsage : Option TokenUsage
  deriving DecidableEq

/-- The outcome of the settlement, if there is one. -/
def ExecutionReservation.outcome (r : ExecutionReservation) : Option SettlementOutcome := r.settlement.map (·.outcome)

inductive ReservationAdmission
  | newlyGranted
  | alreadyRecorded
  deriving DecidableEq, Repr

def mergeObserved : Option TokenUsage → Option TokenUsage → Option TokenUsage
  | none, none => none
  | some value, none => some value
  | none, some value => some value
  | some a, some b => some
      { promptTokens := max a.promptTokens b.promptTokens
        completionTokens := max a.completionTokens b.completionTokens
        totalTokens := max a.totalTokens b.totalTokens
        cachedPromptTokens := max a.cachedPromptTokens b.cachedPromptTokens
        reasoningTokens := max a.reasoningTokens b.reasoningTokens }

/-! ## Charges -/

def usageOverflow : LimitsFault := .rejected "Execution usage overflow"

/-- `add`: the sum, checked. -/
def addTokens (total delta : ℕ) : LimitsResult ℕ := okOr (checkedAdd 64 total delta) usageOverflow

structure Charge where
  input : ℕ
  output : ℕ
  total : ℕ
  deriving DecidableEq

def normalizedTokens (usage : TokenUsage) : LimitsResult Charge := do
  let input := max usage.promptTokens usage.cachedPromptTokens
  let output := max usage.completionTokens usage.reasoningTokens
  let sum ← addTokens input output
  return { input, output, total := max usage.totalTokens sum }

/-- The charge of `consumption` by the settled outcome. -/
def ExecutionReservation.settledCharge (r : ExecutionReservation) : LimitsResult Charge := do
  let request := r.request
  let reservedTotal ← addTokens request.inputTokens request.outputTokens
  match r.outcome with
  | some .provenNeverSent => return { input := 0, output := 0, total := 0 }
  | some (.known known) => normalizedTokens known
  | some (.unknown (some observed)) =>
    let seen ← normalizedTokens observed
    let input := max seen.input request.inputTokens
    let output := max seen.output request.outputTokens
    let sum ← addTokens input output
    return { input, output, total := max (max seen.total reservedTotal) sum }
  | _ => return { input := request.inputTokens, output := request.outputTokens, total := reservedTotal }

/-- The charge of `consumption`, raised to what was observed. -/
def ExecutionReservation.charge (r : ExecutionReservation) : LimitsResult Charge := do
  let base ← r.settledCharge
  match r.observedUsage with
  | none => return base
  | some observed =>
    let seen ← normalizedTokens observed
    let input := max base.input seen.input
    let output := max base.output seen.output
    let sum ← addTokens input output
    return { input, output, total := max (max base.total seen.total) sum }

def ExecutionReservation.inflight (r : ExecutionReservation) : Bool := r.settlement.all fun s => !s.physicalRetired

structure ExecutionConsumption where
  known : Usage := {}
  chargedInputTokens : ℕ := 0
  chargedOutputTokens : ℕ := 0
  chargedTotalTokens : ℕ := 0
  modelAttempts : ℕ := 0
  logicalModelCalls : ℕ := 0
  toolCalls : ℕ := 0
  retries : ℕ := 0
  inflightOperations : ℕ := 0
  deriving DecidableEq

/-- The known usage after one more reservation. -/
def addKnown (known : Usage) (r : ExecutionReservation) : LimitsResult Usage :=
  match r.outcome with
  | some (.known usage) => do
    let tokens ← normalizedTokens usage
    let inputTokens ← addTokens known.inputTokens tokens.input
    let outputTokens ← addTokens known.outputTokens tokens.output
    let totalTokens ← addTokens known.totalTokens tokens.total
    return { known with inputTokens, outputTokens, totalTokens }
  | _ => .ok known

/-- One turn of the loop of `consumption`; the second component is the set of logical calls. -/
def ExecutionConsumption.add (acc : ExecutionConsumption × Finset String) (r : ExecutionReservation) :
    LimitsResult (ExecutionConsumption × Finset String) := do
  let usage := acc.1
  let inflightOperations := usage.inflightOperations + r.inflight.toNat
  let modelAttempts := usage.modelAttempts + (decide (r.request.operation = .modelAttempt)).toNat
  let toolCalls := usage.toolCalls + (decide (r.request.operation = .tool)).toNat
  let logical := if r.request.operation = .modelAttempt then insert r.request.logicalCallId acc.2 else acc.2
  let known ← addKnown usage.known r
  let charge ← r.charge
  let chargedInputTokens ← addTokens usage.chargedInputTokens charge.input
  let chargedOutputTokens ← addTokens usage.chargedOutputTokens charge.output
  let chargedTotalTokens ← addTokens usage.chargedTotalTokens charge.total
  return ({ usage with inflightOperations, modelAttempts, toolCalls, known, chargedInputTokens, chargedOutputTokens
                       chargedTotalTokens }, logical)

/-! ## Scopes -/

structure ExecutionScope where
  id : String
  rootRunId : String
  limits : ExecutionLimits
  createdAtMs : ℕ
  deadlineAtMs : ℕ
  reservations : Table String ExecutionReservation
  version : ℕ

/-- The checks of `ExecutionScope::validate` on one entry. -/
def validateReservation (entry : String × ExecutionReservation) : LimitsResult Unit := do
  let id := entry.1
  let reservation := entry.2
  reservation.request.validate
  ensure (id = reservation.request.id) (.rejected "Execution reservation identity mismatch")
  match reservation.settlement with
  | none => pure ()
  | some settlement => do
    ensure (settlement.reservationId = id) (.rejected "Execution settlement identity mismatch")
    ensure (¬(reservation.request.operation = .tool ∧ settlement.outcome.settlesUsage = true))
      (.rejected "A tool reservation cannot settle model usage")
  ensure (¬(reservation.request.operation = .tool ∧ reservation.observedUsage.any (fun usage => usage != {}) = true))
    (.rejected "A tool reservation cannot observe model usage")

structure ExecutionAllowance where
  deadlineAtMs : ℕ
  remainingInputTokens : ℕ
  remainingOutputTokens : ℕ
  remainingTotalTokens : ℕ

namespace ExecutionScope

def validate (s : ExecutionScope) : LimitsResult Unit := do
  validateExecutionId s.id
  validateExecutionId s.rootRunId
  s.limits.validate
  let maxWallTimeMs ← okOr s.limits.budget.maxWallTimeMs .panicked
  let latest ← okOr (checkedAdd 64 s.createdAtMs maxWallTimeMs) (.rejected "Execution deadline overflow")
  ensure (s.createdAtMs ≤ s.deadlineAtMs ∧ s.deadlineAtMs ≤ latest ∧ s.reservations.size ≤ maxExecutionReservations)
    (.rejected "Invalid execution scope")
  s.reservations.toList.forM validateReservation

def new (id rootRunId : String) (limits : ExecutionLimits) (nowMs : ℕ) : LimitsResult ExecutionScope := do
  limits.validate
  let maxWallTimeMs ← okOr limits.budget.maxWallTimeMs (.rejected "Missing execution deadline")
  let deadlineAtMs ← okOr (checkedAdd 64 nowMs maxWallTimeMs) (.rejected "Execution deadline overflow")
  let value : ExecutionScope :=
    { id, rootRunId, limits, createdAtMs := nowMs, deadlineAtMs, reservations := ∅, version := 0 }
  value.validate
  return value

/-- `ExecutionScope::consumption`; the reservations are read in the order of their identities. -/
def consumption (s : ExecutionScope) : LimitsResult ExecutionConsumption := do
  s.validate
  let acc ← (s.reservations.toList.map (·.2)).foldlM ExecutionConsumption.add ({}, ∅)
  let logicalModelCalls := acc.2.card
  ensure (logicalModelCalls ≤ acc.1.modelAttempts) .panicked
  return { acc.1 with logicalModelCalls, retries := acc.1.modelAttempts - logicalModelCalls }

def checkAllowance (s : ExecutionScope) (nowMs : ℕ) : LimitsResult Unit := do
  let usage ← s.consumption
  ensure (usage.modelAttempts ≤ s.limits.maxModelAttempts ∧ usage.toolCalls ≤ s.limits.maxToolCalls ∧
    usage.retries ≤ s.limits.maxRetries ∧ usage.inflightOperations ≤ s.limits.maxInflightOperations)
    (.rejected "Shared execution operation allowance exhausted")
  let charged : Usage :=
    { wallTimeMs := nowMs - s.createdAtMs, turns := usage.logicalModelCalls, capabilitySteps := usage.toolCalls
      inputTokens := usage.chargedInputTokens, outputTokens := usage.chargedOutputTokens
      totalTokens := usage.chargedTotalTokens, concurrentRuns := usage.inflightOperations }
  let decision ← (s.limits.budget.evaluate charged).toLimits
  ensure (decision = .continue_) (.rejected "Shared execution token or policy allowance exhausted")

/-- `ExecutionScope::allowance`: the remaining tokens; a subtraction of `ℕ` saturates as the source's does. -/
def allowance (s : ExecutionScope) (nowMs : ℕ) : LimitsResult ExecutionAllowance := do
  ensure (s.createdAtMs ≤ nowMs ∧ nowMs < s.deadlineAtMs) (.rejected "Shared execution deadline reached")
  s.checkAllowance nowMs
  let usage ← s.consumption
  let maxInputTokens ← okOr s.limits.budget.maxInputTokens .panicked
  let maxOutputTokens ← okOr s.limits.budget.maxOutputTokens .panicked
  let maxTotalTokens ← okOr s.limits.budget.maxTotalTokens .panicked
  return { deadlineAtMs := s.deadlineAtMs, remainingInputTokens := maxInputTokens - usage.chargedInputTokens
           remainingOutputTokens := maxOutputTokens - usage.chargedOutputTokens
           remainingTotalTokens := maxTotalTokens - usage.chargedTotalTokens }

/-- The admission of a request that is not recorded yet, on a clone of the scope. -/
def admission (s : ExecutionScope) (request : ReservationRequest) (nowMs : ℕ) : LimitsResult ExecutionScope := do
  ensure (s.createdAtMs ≤ nowMs ∧ nowMs < s.deadlineAtMs) (.rejected "Shared execution deadline reached")
  let version ← okOr (checkedAdd 64 s.version 1) (.rejected "Execution scope version exhausted")
  let reservation : ExecutionReservation := { request, settlement := none, observedUsage := none }
  let next := { s with version, reservations := s.reservations.insert request.id reservation }
  next.checkAllowance nowMs
  return next

/-- `ExecutionScope::reserve`: the admission and the scope after it. -/
def reserve (s : ExecutionScope) (request : ReservationRequest) (nowMs : ℕ) :
    LimitsResult (ReservationAdmission × ExecutionScope) := do
  s.validate
  request.validate
  match s.reservations[request.id]? with
  | some existing =>
    ensure (existing.request = request) (.rejected "Execution reservation identity was already used")
    return (.alreadyRecorded, s)
  | none =>
    let next ← s.admission request nowMs
    return (.newlyGranted, next)

end ExecutionScope

/-! ## Settlement -/

def SettlementOutcome.usage : SettlementOutcome → Option TokenUsage
  | .known usage => some usage
  | .unknown observed => observed
  | .provenNeverSent => none

def ReservationSettlement.seen (s : ReservationSettlement) : Option TokenUsage :=
  mergeObserved s.observedUsage s.outcome.usage

/-- The outcome table of `settle`: the recorded outcome, then the reported one. -/
def mergeOutcome : SettlementOutcome → SettlementOutcome → LimitsResult SettlementOutcome
  | .unknown old, .unknown new => .ok (.unknown (mergeObserved old new))
  | .unknown _, .known new => .ok (.known new)
  | .known old, .known new =>
    if old = new then .ok (.known new) else .error (.rejected "Conflicting execution settlement")
  | .known old, .unknown _ => .ok (.known old)
  | .provenNeverSent, .provenNeverSent => .ok .provenNeverSent
  | .provenNeverSent, .unknown none => .ok .provenNeverSent
  | _, _ => .error (.rejected "Conflicting execution settlement")

/-- The reservation after a report, before the scope is written. -/
def ExecutionReservation.settle (existing : ExecutionReservation) (report : ReservationSettlement) :
    LimitsResult ExecutionReservation := do
  let observedUsage := mergeObserved existing.observedUsage report.seen
  match existing.settlement with
  | none => return { existing with settlement := some { report with observedUsage }, observedUsage }
  | some previous =>
    let outcome ← mergeOutcome previous.outcome report.outcome
    let settlement : ReservationSettlement :=
      { reservationId := report.reservationId, outcome
        physicalRetired := report.physicalRetired || previous.physicalRetired, observedUsage }
    return { existing with settlement := some settlement, observedUsage }

namespace ExecutionScope

/-- `ExecutionScope::settle`: the scope after it. -/
def settle (s : ExecutionScope) (report : ReservationSettlement) : LimitsResult ExecutionScope := do
  s.validate
  let existing ← okOr s.reservations[report.reservationId]? (.rejected "Execution reservation is unavailable")
  let reservation ← existing.settle report
  -- a report that adds nothing to a settled reservation is accepted without a new version
  if existing.settlement ≠ none ∧ reservation = existing then return s
  else
    let version ← okOr (checkedAdd 64 s.version 1) (.rejected "Execution scope version exhausted")
    let next := { s with version, reservations := s.reservations.insert report.reservationId reservation }
    next.validate
    return next

/-! ## Calls -/

/-- A call on a scope; the clock reading of a reservation is any. -/
inductive Call
  | reserve (request : ReservationRequest) (nowMs : ℕ)
  | settle (report : ReservationSettlement)

/-- The answer of a call: an admission for `reserve`, none for `settle`. -/
abbrev Reply := LimitsResult (Option ReservationAdmission)

/-- One call: its reply, and the scope it leaves behind. -/
def apply (s : ExecutionScope) : Call → Reply × ExecutionScope
  | .reserve request nowMs =>
    match s.reserve request nowMs with
    | .ok (admission, next) => (.ok (some admission), next)
    | .error fault => (.error fault, s)
  | .settle report =>
    match s.settle report with
    | .ok next => (.ok none, next)
    | .error fault => (.error fault, s)

def step (s : ExecutionScope) (call : Call) : ExecutionScope := (s.apply call).2

end ExecutionScope

end AnimaCore
