import AnimaCore.Base
import AnimaCore.Lib.Machine
import AnimaCore.Lib.Method
import AnimaCore.Lib.Search
import AnimaCore.Lib.Table

/-!
# AnimaCore.Workflows — durable sequential workflows

`workflows.rs`: a run is a list of steps, done one after the other.  A task step is done by jobs of the host (at most
three attempts), an approval or input step by a decision of a user.  Decisions are recorded; attaching a job, completing
and reviewing a task leave no record but the saved attempts.

* The operations take `&mut self`: they are `Method`s, so that what a failed call leaves behind is part of the model.
* `validate` also guards a restored run: `history_is_reachable` searches for a sequence of recorded decisions and
  unrecorded events that ends in the saved state.
* An index out of range is the fault `panicked`.  Times and revisions are natural numbers; the additions the source
  checks go through `checkedAdd`.
-/

namespace AnimaCore.Workflows

open Lib

/-! ## Bounds -/

def maxWorkflowSteps : ℕ := 16

def maxWorkflowStepIdBytes : ℕ := 64

def maxWorkflowTitleChars : ℕ := 160

def maxWorkflowRequestKeyBytes : ℕ := 128

def maxWorkflowPromptBytes : ℕ := 8 * 1024

def maxWorkflowDefinitionBytes : ℕ := 32 * 1024

def maxWorkflowInputBytes : ℕ := 8 * 1024

def maxWorkflowResultBytes : ℕ := 64 * 1024

def maxWorkflowAttempts : ℕ := 3

def maxWorkflowDecisions : ℕ := 64

def maxWorkflowTemplateParameters : ℕ := 16

def maxWorkflowTemplateInputBytes : ℕ := 8192

/-! ## Records -/

/-- How a call ends without a value: an error text, or a panic. -/
inductive WorkflowFault
  | rejected (message : String)
  | panicked
  deriving DecidableEq, Repr

/-- `Result<T, String>`. -/
abbrev WorkflowResult (α : Type) := Except WorkflowFault α

inductive WorkflowStepKind
  | task
  | approval
  | input
  deriving DecidableEq, Repr

inductive WorkflowStatus
  | running
  | awaitingApproval
  | awaitingInput
  | needsReview
  | completed
  | cancelled
  deriving DecidableEq, Repr

inductive WorkflowStepStatus
  | pending
  | running
  | awaitingApproval
  | awaitingInput
  | needsReview
  | completed
  | cancelled
  deriving DecidableEq, Repr

inductive WorkflowResumeAction
  | approve
  | answer
  | retry
  | resolve
  deriving DecidableEq, Repr

structure WorkflowStepSpec where
  id : String
  title : String
  kind : WorkflowStepKind
  prompt : String
  deriving DecidableEq

structure WorkflowInput where
  title : String
  requestKey : String
  steps : List WorkflowStepSpec
  deriving DecidableEq

@[ext]
structure WorkflowStep where
  id : String
  title : String
  kind : WorkflowStepKind
  prompt : String
  status : WorkflowStepStatus
  jobId : Option String
  attempt : ℕ
  attempts : List String
  result : Option String
  deriving DecidableEq

structure WorkflowResumeRequest where
  revision : ℕ
  action : WorkflowResumeAction
  value : Option String
  acknowledgeUncertain : Bool
  deriving DecidableEq

structure WorkflowDecision where
  stepIndex : ℕ
  request : WorkflowResumeRequest
  decidedAtMs : ℕ
  deriving DecidableEq

structure WorkflowTemplateRunInput where
  requestKey : String
  revision : ℕ
  inputs : Table String String

structure WorkflowTemplateSource where
  slug : String
  revision : ℕ
  inputs : Table String String
  request : WorkflowTemplateRunInput

@[ext]
structure WorkflowRun where
  id : String
  agentId : String
  title : String
  requestKey : String
  status : WorkflowStatus
  revision : ℕ
  currentStep : ℕ
  steps : List WorkflowStep
  decisions : List WorkflowDecision
  createdAtMs : ℕ
  updatedAtMs : ℕ
  error : Option String
  sourceTemplate : Option WorkflowTemplateSource

/-- A method of `WorkflowRun` on `&mut self`. -/
abbrev WorkflowMethod (α : Type) := Method WorkflowFault WorkflowRun α

/-! ## Checks of a definition -/

def validateReference (value name : String) : WorkflowResult Unit :=
  ensure (value ≠ "" ∧ value.utf8ByteSize ≤ 256 ∧ value.toList.any isControl = false) (.rejected ("Invalid " ++ name))

def isStepIdChar (c : Char) : Bool := c.isAlphanum || c == '_' || c == '-'

/-- The body of the loop of `validate_definition`: the identifiers seen so far, and the bytes of the definition. -/
def validateStepSpec (seen : List String × ℕ) (step : WorkflowStepSpec) : WorkflowResult (List String × ℕ) := do
  ensure (step.id ≠ "" ∧ step.id.utf8ByteSize ≤ maxWorkflowStepIdBytes ∧ step.id.toList.all isStepIdChar = true ∧
      step.id ∉ seen.1)
    (.rejected
      "Workflow step IDs must be unique, 1-64 ASCII letters, digits, underscores or hyphens")
  ensure (trimmedEmpty step.title = false ∧ trimmedEmpty step.prompt = false ∧
      step.title.toList.length ≤ maxWorkflowTitleChars ∧ step.prompt.utf8ByteSize ≤ maxWorkflowPromptBytes)
    (.rejected "Workflow step title and prompt must be nonempty and within their limits")
  pure (step.id :: seen.1, seen.2 + step.id.utf8ByteSize + step.title.utf8ByteSize + step.prompt.utf8ByteSize)

def validateDefinition (input : WorkflowInput) : WorkflowResult Unit := do
  ensure (input.steps ≠ [] ∧ input.steps.length ≤ maxWorkflowSteps)
    (.rejected "Workflow must have between 1 and 16 steps")
  ensure (trimmedEmpty input.title = false ∧ input.title.toList.length ≤ maxWorkflowTitleChars)
    (.rejected "Workflow title must be nonempty and at most 160 characters")
  ensure (trimmedEmpty input.requestKey = false ∧ input.requestKey.utf8ByteSize ≤ maxWorkflowRequestKeyBytes)
    (.rejected "Workflow request key must be nonempty and at most 128 bytes")
  let seen ← input.steps.foldlM validateStepSpec ([], input.title.utf8ByteSize + input.requestKey.utf8ByteSize)
  ensure (seen.2 ≤ maxWorkflowDefinitionBytes) (.rejected "Workflow definition exceeds 32 KiB")

/-- `validate_resume_request`. -/
def WorkflowResumeRequest.validate (request : WorkflowResumeRequest) : WorkflowResult Unit := do
  ensure (request.revision ≠ 0) (.rejected "Workflow decision revision must be positive")
  match request.action with
  | .approve | .retry =>
    ensure (request.value = none) (.rejected "This workflow decision does not accept a value")
  | .answer | .resolve =>
    ensure (request.value.any (fun value =>
        !trimmedEmpty value && decide (value.utf8ByteSize ≤ maxWorkflowInputBytes)) = true)
      (.rejected "Workflow answer or resolution requires nonempty text up to 8 KiB")
  ensure ((request.action ≠ .retry ∧ request.action ≠ .resolve) ∨ request.acknowledgeUncertain = true)
    (.rejected "Acknowledge uncertain prior effects before retrying or resolving a task")

/-! ## The template a run was made from -/

def validateSlug (value : String) : WorkflowResult Unit :=
  ensure (value ≠ "" ∧ value.utf8ByteSize ≤ 64 ∧
      value.toList.all (fun c => c.isLower || c.isDigit || c == '-' || c == '_') = true)
    (.rejected "Template slug must use 1-64 lowercase letters, numbers, hyphens or underscores")

/-- `valid_name`: a digit may not come first. -/
def validName (value : String) : Bool :=
  value ≠ "" && value.utf8ByteSize ≤ 64 && value.toList.all (fun c => c.isAlpha || c == '_' || c.isDigit) &&
    !value.toList.head?.any Char.isDigit

def validateValues (inputs : Table String String) : WorkflowResult Unit :=
  ensure (inputs.size ≤ maxWorkflowTemplateParameters ∧
      inputs.toList.all (fun entry => validName entry.1 && entry.2.utf8ByteSize ≤ maxWorkflowTemplateInputBytes &&
        !entry.2.toList.contains (Char.ofNat 0)) = true ∧
      (inputs.toList.map (·.2.utf8ByteSize)).sum ≤ 16 * 1024)
    (.rejected "Workflow template inputs exceed name, value or total bounds")

def validateRunInput (input : WorkflowTemplateRunInput) : WorkflowResult Unit := do
  ensure (input.revision ≠ 0 ∧ trimmedEmpty input.requestKey = false ∧ input.requestKey.utf8ByteSize ≤ 128 ∧
      input.requestKey.toList.any isControl = false)
    (.rejected "Run requires a positive template revision and request key up to 128 bytes")
  validateValues input.inputs

def WorkflowTemplateSource.validate (source : WorkflowTemplateSource) (requestKey : String) : WorkflowResult Unit := do
  validateSlug source.slug
  validateRunInput source.request
  ensure (source.revision ≠ 0 ∧ source.revision = source.request.revision ∧ source.request.requestKey = requestKey)
    (.rejected "Invalid pinned workflow template revision or request key")
  validateValues source.inputs
  ensure (source.request.inputs.toList.all (fun entry => source.inputs[entry.1]? == some entry.2) = true)
    (.rejected "Pinned template inputs differ from submitted values")

/-! ## Replay of a saved history -/

def initialPhase : WorkflowStepKind → WorkflowStepStatus
  | .task => .pending
  | .approval => .awaitingApproval
  | .input => .awaitingInput

structure ReplayState where
  step : ℕ
  phase : WorkflowStepStatus
  attempt : ℕ
  attached : Bool
  decision : ℕ
  revision : ℕ
  deriving DecidableEq

namespace WorkflowRun

def replayMatchesAttempt (w : WorkflowRun) (state : ReplayState) : Bool :=
  match w.steps[state.step]? with
  | none => w.status == .completed
  | some step =>
    state.attempt == step.attempt &&
      (if state.attached then step.jobId == step.attempts.getLast? else step.jobId.isNone)

/-- `replay_matches_current`; past the last step the attempt does not match a run that is not completed, so the index
of the last line is in range. -/
def replayMatchesCurrent (w : WorkflowRun) (state : ReplayState) : Bool :=
  if w.status = .completed then state.step == w.steps.length
  else if w.status = .cancelled then false
  else w.replayMatchesAttempt state && w.steps[state.step]?.any (·.status == state.phase)

def replayCanComplete (w : WorkflowRun) (state : ReplayState) (result : Option String) : Bool :=
  match w.steps[state.step]? with
  | none => false
  | some step => step.status == .completed && w.replayMatchesAttempt state && step.result == result

def replayAdvance (w : WorkflowRun) (state : ReplayState) : ReplayState :=
  { state with
    step := state.step + 1
    attempt := 0
    attached := false
    phase := (w.steps[state.step + 1]?.map (fun step => initialPhase step.kind)).getD .completed }

/-- The state after a recorded decision, if the decision fits. -/
def replayDecision (w : WorkflowRun) (state : ReplayState) (decision : WorkflowDecision) : List ReplayState :=
  if decision.stepIndex ≠ state.step then []
  else
    let next := { state with revision := state.revision + 1, decision := state.decision + 1 }
    match state.phase, decision.request.action with
    | .needsReview, .retry =>
      if state.attempt < maxWorkflowAttempts then [{ next with phase := .pending, attached := false }] else []
    | .needsReview, .resolve =>
      if w.replayCanComplete state decision.request.value then [w.replayAdvance next] else []
    | .awaitingApproval, .approve => if w.replayCanComplete state none then [w.replayAdvance next] else []
    | .awaitingInput, .answer =>
      if w.replayCanComplete state decision.request.value then [w.replayAdvance next] else []
    | _, _ => []

/-- The states after an unrecorded event: a job is attached, a task completes, or it needs review.  The state pushed
last comes first. -/
def replayEvent (w : WorkflowRun) (state : ReplayState) (step : WorkflowStep) : List ReplayState :=
  let next := { state with revision := state.revision + 1 }
  let review := { next with phase := .needsReview }
  match state.phase with
  | .pending =>
    if state.attempt < step.attempts.length then
      [review, { next with attempt := state.attempt + 1, attached := true, phase := .running }]
    else [review]
  | .running => if w.replayCanComplete state step.result then [review, w.replayAdvance next] else [review]
  | _ => []

/-- The states the loop of `history_is_reachable` pushes from `state`. -/
def replayNext (w : WorkflowRun) (state : ReplayState) : List ReplayState :=
  if w.decisions[state.decision]?.any (fun decision => decide (decision.request.revision < state.revision)) then []
  else
    match w.steps[state.step]? with
    | none => []
    | some step =>
      match w.decisions[state.decision]?.filter (fun decision => decision.request.revision == state.revision) with
      | some decision => w.replayDecision state decision
      | none => if state.revision ≥ w.revision then [] else w.replayEvent state step

/-- The states from which the loop returns `true`; all decisions are used up, so the check for a missed decision before
it passes. -/
def replayAccepts (w : WorkflowRun) (state : ReplayState) : Bool :=
  state.decision == w.decisions.length && state.step == w.currentStep &&
    ((state.revision == w.revision && w.replayMatchesCurrent state) ||
      (w.status == .cancelled && checkedAdd 64 state.revision 1 == some w.revision && w.replayMatchesAttempt state))

def replaySkips (w : WorkflowRun) (state : ReplayState) : Bool := decide (w.revision < state.revision)

def replayStart (first : WorkflowStep) : ReplayState :=
  { step := 0, phase := initialPhase first.kind, attempt := 0, attached := false, decision := 0, revision := 1 }

def replayRounds (w : WorkflowRun) : ℕ := 3 ^ (4 * w.steps.length + 4 * w.decisions.length + 4)

def historyIsReachable (w : WorkflowRun) : WorkflowResult Bool := do
  let first ← okOr w.steps[0]? .panicked
  pure (search w.replaySkips w.replayAccepts w.replayNext w.replayRounds [replayStart first] [])

/-! ## Checks of a run -/

def definition (w : WorkflowRun) : WorkflowInput :=
  { title := w.title
    requestKey := w.requestKey
    steps := w.steps.map fun step => { id := step.id, title := step.title, kind := step.kind, prompt := step.prompt } }

def errorMatches : Option String → WorkflowStatus → Bool
  | some error, .needsReview => !trimmedEmpty error && error.utf8ByteSize ≤ maxWorkflowResultBytes
  | none, status => status != .needsReview
  | _, _ => false

/-- The current step against the status of the run. -/
def currentMatches (w : WorkflowRun) (step : WorkflowStep) : Bool :=
  match w.status with
  | .running => step.kind == .task && (step.status == .pending || step.status == .running)
  | .awaitingApproval => step.kind == .approval && step.status == .awaitingApproval
  | .awaitingInput => step.kind == .input && step.status == .awaitingInput
  | .needsReview => step.kind == .task && step.status == .needsReview
  | .cancelled => step.status == .cancelled
  | .completed => false

def validatePosition (w : WorkflowRun) (index : ℕ) (step : WorkflowStep) : WorkflowResult Unit :=
  if index < w.currentStep then
    ensure (step.status = .completed) (.rejected "Every earlier workflow step must be completed")
  else if w.currentStep < index then
    ensure (step.status = (if w.status = .cancelled then .cancelled else .pending) ∧ step.attempt = 0 ∧
        step.jobId = none)
      (.rejected "A later workflow step cannot have started")
  else ensure (w.currentMatches step = true) (.rejected "Current workflow step does not match its status")

def resultMatches : WorkflowStepKind → Option String → Bool
  | .task, some result => result.utf8ByteSize ≤ maxWorkflowResultBytes
  | .input, some result => !trimmedEmpty result && result.utf8ByteSize ≤ maxWorkflowInputBytes
  | .approval, none => true
  | _, _ => false

/-- The saved result of a step against its status. -/
def validateResult (step : WorkflowStep) : WorkflowResult Unit :=
  if step.status = .completed then
    ensure (resultMatches step.kind step.result = true) (.rejected "Completed workflow step has an invalid saved result")
  else ensure (step.result = none) (.rejected "Unfinished workflow steps cannot contain results")

/-- One saved job of a step; `jobIds` are those seen before. -/
def validateJobId (jobIds : List String) (jobId : String) : WorkflowResult (List String) := do
  validateReference jobId "workflow job ID"
  ensure (jobId ∉ jobIds) (.rejected "Workflow job IDs must be unique across all attempts")
  pure (jobId :: jobIds)

def validateStep (w : WorkflowRun) (jobIds : List String) (entry : WorkflowStep × ℕ) :
    WorkflowResult (List String) := do
  let step := entry.1
  ensure (step.attempt = step.attempts.length ∧ step.attempt ≤ maxWorkflowAttempts)
    (.rejected "Workflow attempt count does not match its saved jobs")
  let jobIds ← step.attempts.foldlM validateJobId jobIds
  ensure (step.jobId.all (fun jobId => step.attempts.getLast? == some jobId) = true)
    (.rejected "Current workflow job must be the latest saved attempt")
  ensure (step.kind = .task ∨ (step.attempt = 0 ∧ step.jobId = none)) (.rejected "Workflow checkpoints cannot own jobs")
  w.validatePosition entry.2 step
  validateResult step
  pure jobIds

/-- The body of the loop over the decisions: the revision and time of the one before. -/
def validateDecision (w : WorkflowRun) (last : ℕ × ℕ) (decision : WorkflowDecision) : WorkflowResult (ℕ × ℕ) := do
  decision.request.validate
  ensure (decision.stepIndex < w.steps.length ∧ last.1 < decision.request.revision ∧
      decision.request.revision < w.revision ∧ last.2 ≤ decision.decidedAtMs ∧
      decision.decidedAtMs ≤ w.updatedAtMs ∧
      (decision.request.revision + 1 = w.revision → decision.decidedAtMs = w.updatedAtMs))
    (.rejected "Invalid workflow decision step, revision or timestamps")
  pure (decision.request.revision, decision.decidedAtMs)

def validateSource (w : WorkflowRun) : WorkflowResult Unit :=
  match w.sourceTemplate with
  | some source => source.validate w.requestKey
  | none => .ok ()

def validate (w : WorkflowRun) : WorkflowResult Unit := do
  w.validateSource
  validateReference w.id "workflow ID"
  validateReference w.agentId "agent ID"
  validateDefinition w.definition
  ensure (w.revision ≠ 0 ∧ w.createdAtMs ≤ w.updatedAtMs) (.rejected "Invalid workflow revision or timestamps")
  ensure (w.revision = 1 → w.updatedAtMs = w.createdAtMs)
    (.rejected "An unchanged workflow must retain its creation timestamp")
  ensure (w.currentStep ≤ w.steps.length ∧ (w.status = .completed ↔ w.currentStep = w.steps.length))
    (.rejected "Workflow current step does not match its status")
  ensure (errorMatches w.error w.status = true) (.rejected "Workflow review error does not match its status")
  let _ ← w.steps.zipIdx.foldlM w.validateStep []
  ensure (w.decisions.length ≤ maxWorkflowDecisions) (.rejected "Workflow decision history limit reached")
  let _ ← w.decisions.foldlM w.validateDecision (0, w.createdAtMs)
  let reachable ← w.historyIsReachable
  ensure (reachable = true) (.rejected "Saved workflow state cannot result from its recorded history")

/-! ## Operations -/

def nextRevision (w : WorkflowRun) (now : ℕ) : WorkflowResult ℕ := do
  ensure (w.updatedAtMs ≤ now) (.rejected "Workflow timestamps cannot move backwards")
  okOr (checkedAdd 64 w.revision 1) (.rejected "Workflow revision exhausted")

/-- The status of the run and of its step when a step of this kind becomes the current one. -/
def activation : WorkflowStepKind → WorkflowStatus × WorkflowStepStatus
  | .task => (.running, .pending)
  | .approval => (.awaitingApproval, .awaitingApproval)
  | .input => (.awaitingInput, .awaitingInput)

/-- `self.steps[index]` is changed by `f`. -/
def setStep (w : WorkflowRun) (index : ℕ) (f : WorkflowStep → WorkflowStep) : WorkflowRun :=
  { w with steps := w.steps.modify index f }

def activateCurrentStep (w : WorkflowRun) : WorkflowRun :=
  match w.steps[w.currentStep]? with
  | none => { w with status := .completed }
  | some step =>
    { w.setStep w.currentStep (fun current => { current with status := (activation step.kind).2 }) with
      status := (activation step.kind).1 }

def freshStep (spec : WorkflowStepSpec) : WorkflowStep :=
  { id := spec.id, title := spec.title, kind := spec.kind, prompt := spec.prompt, status := .pending, jobId := none,
    attempt := 0, attempts := [], result := none }

/-- The run `new` starts from, before its first step is activated. -/
def unstarted (id agentId : String) (input : WorkflowInput) (now : ℕ) : WorkflowRun :=
  { id := id, agentId := agentId, title := input.title, requestKey := input.requestKey, status := .running,
    revision := 1, currentStep := 0, steps := input.steps.map freshStep, decisions := [], createdAtMs := now,
    updatedAtMs := now, error := none, sourceTemplate := none }

def new (id agentId : String) (input : WorkflowInput) (now : ℕ) : WorkflowResult WorkflowRun := do
  validateDefinition input
  let run := (unstarted id agentId input now).activateCurrentStep
  run.validate
  pure run

/-- The run with a job attached to its current step. -/
def attached (w : WorkflowRun) (jobId : String) (now revision : ℕ) : WorkflowRun :=
  { w.setStep w.currentStep (fun step =>
      { step with
        attempt := step.attempt + 1
        attempts := step.attempts ++ [jobId]
        jobId := some jobId
        status := .running }) with
    revision := revision
    updatedAtMs := now }

def attachJob (jobId : String) (now : ℕ) : WorkflowMethod Unit := do
  let w ← get
  Method.check w.validate
  Method.check (validateReference jobId "workflow job ID")
  Method.check (ensure (w.status = .running) (.rejected "Workflow is not awaiting task admission"))
  let step ← Method.check (okOr w.steps[w.currentStep]? .panicked)
  Method.check (ensure (step.status = .pending ∧ step.attempt < maxWorkflowAttempts)
    (.rejected "Workflow is not awaiting task admission"))
  Method.check (ensure (w.steps.any (fun step => step.attempts.contains jobId) = false)
    (.rejected "Workflow job ID was already used by a saved attempt"))
  let revision ← Method.check (w.nextRevision now)
  set (w.attached jobId now revision)
  pure ()

/-- The current step is completed with `result` and the next one activated. -/
def advanced (w : WorkflowRun) (result : Option String) : WorkflowRun :=
  activateCurrentStep
    { w.setStep w.currentStep (fun step => { step with result := result, status := .completed }) with
      currentStep := w.currentStep + 1 }

def completeTask (result : String) (now : ℕ) : WorkflowMethod Unit := do
  let w ← get
  Method.check w.validate
  Method.check (ensure (w.status = .running) (.rejected "Only a running workflow task can complete"))
  let step ← Method.check (okOr w.steps[w.currentStep]? .panicked)
  Method.check (ensure (step.status = .running) (.rejected "Only a running workflow task can complete"))
  Method.check (ensure (result.utf8ByteSize ≤ maxWorkflowResultBytes) (.rejected "Workflow result exceeds 64 KiB"))
  let revision ← Method.check (w.nextRevision now)
  set { w.advanced (some result) with revision := revision, updatedAtMs := now }
  pure ()

/-- The run with its current task under review. -/
def reviewed (w : WorkflowRun) (error : String) (now revision : ℕ) : WorkflowRun :=
  { w.setStep w.currentStep (fun step => { step with status := .needsReview }) with
    status := .needsReview
    error := some error
    revision := revision
    updatedAtMs := now }

def needsReview (error : String) (now : ℕ) : WorkflowMethod Unit := do
  let w ← get
  Method.check w.validate
  Method.check (ensure (w.status = .running)
    (.rejected "Only a pending or running workflow task can require review"))
  let step ← Method.check (okOr w.steps[w.currentStep]? .panicked)
  Method.check (ensure (step.status = .pending ∨ step.status = .running)
    (.rejected "Only a pending or running workflow task can require review"))
  Method.check (ensure (trimmedEmpty error = false ∧ error.utf8ByteSize ≤ maxWorkflowResultBytes)
    (.rejected "Workflow review requires a bounded nonempty error"))
  let revision ← Method.check (w.nextRevision now)
  set (w.reviewed error now revision)
  pure ()

/-- The checkpoint a decision of this kind answers. -/
def awaits (w : WorkflowRun) : WorkflowResumeAction → Bool
  | .approve => w.status == .awaitingApproval
  | .answer => w.status == .awaitingInput
  | .retry | .resolve => w.status == .needsReview

/-- Only a retry looks at the attempts of the current step. -/
def checkRetry (w : WorkflowRun) (request : WorkflowResumeRequest) : WorkflowResult Unit :=
  if request.action = .retry then do
    let step ← okOr w.steps[w.currentStep]? .panicked
    ensure (step.attempt < maxWorkflowAttempts) (.rejected "Workflow task has exhausted its three attempts")
  else .ok ()

/-- The run after a decision about its current step. -/
def decided (w : WorkflowRun) (request : WorkflowResumeRequest) (now revision : ℕ) : WorkflowRun :=
  let moved :=
    if request.action = .retry then
      { w.setStep w.currentStep (fun step => { step with status := .pending, jobId := none }) with status := .running }
    else w.advanced request.value
  { moved with
    error := none
    decisions := w.decisions ++ [{ stepIndex := w.currentStep, request := request, decidedAtMs := now }]
    revision := revision
    updatedAtMs := now }

def resume (request : WorkflowResumeRequest) (now : ℕ) : WorkflowMethod Bool := do
  let w ← get
  Method.check w.validate
  match w.decisions.find? (fun saved => saved.request.revision == request.revision) with
  | some saved =>
    Method.check (do
      ensure (saved.request = request)
        (.rejected "A different workflow decision is already saved at that revision")
      pure false)
  | none => do
    Method.check (ensure (request.revision = w.revision)
      (.rejected "Workflow revision conflict; refresh the saved workflow"))
    Method.check request.validate
    Method.check (ensure (w.decisions.length < maxWorkflowDecisions)
      (.rejected "Workflow decision history limit reached"))
    Method.check (ensure (w.awaits request.action = true)
      (.rejected "Workflow decision does not match the current checkpoint"))
    Method.check (w.checkRetry request)
    let revision ← Method.check (w.nextRevision now)
    let _ ← Method.check (okOr w.steps[w.currentStep]? .panicked)
    set (w.decided request now revision)
    pure true

/-- The run with every step from the current one on cancelled. -/
def cancelled (w : WorkflowRun) (now revision : ℕ) : WorkflowRun :=
  { w with
    steps := w.steps.mapIdx fun index step =>
      if w.currentStep ≤ index then { step with status := .cancelled } else step
    status := .cancelled
    error := none
    revision := revision
    updatedAtMs := now }

def cancel (revision now : ℕ) : WorkflowMethod Bool := do
  let w ← get
  Method.check w.validate
  if w.status = .cancelled then
    Method.check (do
      ensure (checkedAdd 64 revision 1 = some w.revision) (.rejected "Workflow cancellation revision conflict")
      pure false)
  else do
    Method.check (ensure (revision = w.revision)
      (.rejected "Workflow revision conflict; refresh the saved workflow"))
    Method.check (ensure (w.status ≠ .completed) (.rejected "A completed workflow cannot be cancelled"))
    let next ← Method.check (w.nextRevision now)
    set (w.cancelled now next)
    pure true

end WorkflowRun

/-! ## Histories -/

inductive Call
  | attachJob (jobId : String) (now : ℕ)
  | completeTask (result : String) (now : ℕ)
  | needsReview (error : String) (now : ℕ)
  | resume (request : WorkflowResumeRequest) (now : ℕ)
  | cancel (revision now : ℕ)

/-- The operation of a call; the value says whether the run was changed. -/
def Call.method : Call → WorkflowMethod Bool
  | .attachJob jobId now => do
    WorkflowRun.attachJob jobId now
    pure true
  | .completeTask result now => do
    WorkflowRun.completeTask result now
    pure true
  | .needsReview error now => do
    WorkflowRun.needsReview error now
    pure true
  | .resume request now => WorkflowRun.resume request now
  | .cancel revision now => WorkflowRun.cancel revision now

def step (w : WorkflowRun) (call : Call) : WorkflowRun := (call.method.call w).2

def Succeeds (w : WorkflowRun) (call : Call) : Prop := ∃ b, (call.method.call w).1 = .ok b

/-- The runs that `new` and finitely many successful calls produce. -/
def Reachable (w : WorkflowRun) : Prop :=
  ∃ id agentId input now w₀, WorkflowRun.new id agentId input now = .ok w₀ ∧ Reaches step Succeeds w₀ w

end AnimaCore.Workflows
