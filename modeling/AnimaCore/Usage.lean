import AnimaCore.Live.Registry
import AnimaCore.RunDelta
import AnimaCore.Runs

/-!
# AnimaCore.Usage — the usage rows of a run

`usage/mod.rs`: one row for each model call of a run that has ended, priced when it is written.

* `RunRecord` has the fields of the run record that the rows are made from.
* `priceCall` is `price_call` under the owner's price overrides.
* `add_usage` of `RunDelta` is the source's `saturating_add`; a subtraction of `ℕ` is its `saturating_sub`.
-/

namespace AnimaCore.Usage

open Live RunDelta Runs

inductive UsageSource
  | chat
  | telegram
  | discord
  | email
  | automation
  | job
  | helper
  | api
  | title
  | compaction
  | profile
  | agency
  | approval
  | sideQuestion
  | skillEvaluation
  deriving DecidableEq, Repr

/-- `From<RunSource> for UsageSource`. -/
def UsageSource.ofRun : RunSource → UsageSource
  | .web => .chat
  | .api => .api
  | .telegram => .telegram
  | .discord => .discord
  | .email => .email
  | .schedule => .automation
  | .job => .job
  | .delegation | .peer => .helper

inductive PricingSource
  | table
  | override
  | free
  | subscription
  | unknown
  deriving DecidableEq, Repr

/-- `UsageRecord`, with the five counters in one field. -/
structure UsageRecord where
  id : String
  agentId : String
  sessionId : Option String
  runId : Option String
  source : UsageSource
  provider : String
  model : String
  tokens : TokenUsage
  costMicros : Option ℕ
  pricingSource : PricingSource
  durationMs : ℕ
  createdAtMs : ℕ
  deriving DecidableEq, Repr

structure UsageCall where
  id : String
  agentId : String
  sessionId : Option String
  runId : Option String
  source : UsageSource
  provider : String
  model : String
  durationMs : ℕ
  createdAtMs : ℕ

/-- The fields of `RunRecord` read here. -/
structure RunRecord where
  id : String
  agentId : String
  sessionId : String
  source : RunSource
  createdAtMs : ℕ
  startedAtMs : Option ℕ
  finishedAtMs : Option ℕ
  steps : List RunStepUsage
  usage : TokenUsage
  model : String
  provider : Option String

section

variable (priceCall : String → String → TokenUsage → Option ℕ × PricingSource)

def usageRecord (call : UsageCall) (usage : TokenUsage) : UsageRecord where
  id := call.id
  agentId := call.agentId
  sessionId := call.sessionId
  runId := call.runId
  source := call.source
  provider := call.provider
  model := call.model
  tokens := usage
  costMicros := (priceCall call.provider call.model usage).1
  pricingSource := (priceCall call.provider call.model usage).2
  durationMs := call.durationMs
  createdAtMs := call.createdAtMs

def isZero (usage : TokenUsage) : Bool :=
  usage.promptTokens == 0 && usage.completionTokens == 0 && usage.totalTokens == 0 && usage.cachedPromptTokens == 0 &&
    usage.reasoningTokens == 0

def saturatingSub (total used : TokenUsage) : TokenUsage := subtractUsage total used

/-- The closure `call`. -/
def RunRecord.call (run : RunRecord) (id : String) (durationMs createdAtMs : ℕ) (served : Option (String × String)) :
    UsageCall where
  id
  agentId := run.agentId
  sessionId := some run.sessionId
  runId := some run.id
  source := .ofRun run.source
  provider := (served.map Prod.fst).getD (run.provider.getD "unknown")
  model := (served.map Prod.snd).getD run.model
  durationMs
  createdAtMs

def RunRecord.fallbackMs (run : RunRecord) : ℕ := run.startedAtMs.getD run.createdAtMs

/-- `step.provider.as_ref().zip(step.model.as_ref())`. -/
def servedModel (step : RunStepUsage) : Option (String × String) :=
  match step.provider, step.model with
  | some provider, some model => some (provider, model)
  | _, _ => none

def stepRecord (run : RunRecord) (step : RunStepUsage) : UsageRecord :=
  let atMs := if step.atMs = 0 then run.fallbackMs else step.atMs
  usageRecord priceCall (run.call step.stepId step.durationMs atMs (servedModel step)) step.usage

def addStep (run : RunRecord) (acc : List UsageRecord × TokenUsage) (step : RunStepUsage) : List UsageRecord × TokenUsage :=
  let accounted := addUsage acc.2 step.usage
  if isZero step.usage then (acc.1, accounted) else (acc.1 ++ [stepRecord priceCall run step], accounted)

/-- The identifier of the row for what the steps do not account for. -/
def RunRecord.restId (run : RunRecord) : String := run.id ++ ":rest"

def usageRecordsForRun (run : RunRecord) : List UsageRecord :=
  let (records, accounted) := run.steps.foldl (addStep priceCall run) ([], {})
  let rest := saturatingSub run.usage accounted
  if 0 < rest.totalTokens then
    let atMs := run.finishedAtMs.getD run.fallbackMs
    records ++ [usageRecord priceCall (run.call run.restId 0 atMs none) rest]
  else records

end

end AnimaCore.Usage
