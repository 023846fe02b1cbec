import AnimaCore.ExecutionLimits

/-!
# AnimaCore.FallbackModel — the fallback chain of an agent

`FallbackModelAdapter`: a call that fails before it gave the consumer any output is tried again on the agent's next
model, and once a fallback answered, the later calls start there.

An adapter is a `Script`: what it emits, where each next step may depend on what the sink answered, and its result.  A
sink answers each frame as it likes, by all it was given before.  A call leaves a list of attempts, each with what the
adapter emitted and what the sink was given (`throughChain`, `streamAttempt`); a run is a list of calls on one adapter.
The classification of error texts is an argument.
-/

namespace AnimaCore.FallbackModel

inductive ModelFailureKind
  | rateLimited
  | overloaded
  | authFailed
  | billing
  | timeout
  | transport
  | modelNotFound
  | contextTooLong
  | badRequest
  | other
  deriving DecidableEq, Repr

def ModelFailureKind.fallsBack : ModelFailureKind → Bool
  | .contextTooLong | .badRequest | .other => false
  | _ => true

def reasonFor : ModelFailureKind → String
  | .rateLimited => "was rate limited"
  | .overloaded => "was overloaded"
  | .billing => "was out of credit"
  | .authFailed => "did not accept its key"
  | .modelNotFound => "did not have that model"
  | .timeout | .transport | .contextTooLong | .badRequest | .other => "was unavailable"

structure ModelChoice where
  provider : String
  model : String
  deriving DecidableEq, Repr

/-- `AgentConfig`, as far as the chain reads it. -/
structure AgentConfig where
  provider : Option String
  model : String
  fallbacks : List ModelChoice
  deriving DecidableEq, Repr

def choiceConfigs (config : AgentConfig) : List AgentConfig :=
  config :: config.fallbacks.map fun choice => { config with provider := some choice.provider, model := choice.model }

def label (config : AgentConfig) : String := config.provider.getD "" ++ "/" ++ config.model

/-- `ModelStreamFrame`; `ρ` are the responses. -/
inductive ModelStreamFrame (ρ : Type)
  | textDelta (text : String)
  | usage (usage : TokenUsage)
  | served (provider model reason : String)
  | final (response : ρ)
  deriving DecidableEq

structure Sticky where
  index : ℕ
  reason : String
  deriving DecidableEq, Repr

variable {ρ σ τ : Type}

/-! ## The chain -/

section Chain

variable (classify : String → ModelFailureKind) (choices : List AgentConfig) (start : ℕ)

/-- The end of `down_the_chain`, after the last choice; `none` is its `expect`. -/
def exhausted (firstError : Option String) : Option (Except String (τ × Option Sticky)) :=
  firstError.map fun firstError =>
    if choices.length - start = 1 then .error firstError
    else .error (firstError ++ " (also tried: " ++
      String.intercalate ", " ((choices.drop (start + 1)).map label) ++ ")")

/-- The `Served` frame of a choice; the primary has none. -/
def servedFrame (index : ℕ) (choice : AgentConfig) (reason : Option String) : Option (ModelStreamFrame ρ) :=
  if 0 < index then some (.served (choice.provider.getD "") choice.model (reason.getD "was unavailable")) else none

/-- The loop of `down_the_chain`. -/
def tryChoices (attempt : AgentConfig → Option (ModelStreamFrame ρ) → σ → (Except String τ × Bool) × σ) :
    List (AgentConfig × ℕ) → Option String → Option String → σ → Option (Except String (τ × Option Sticky)) × σ
  | [], _, firstError, s => (exhausted choices start firstError, s)
  | (choice, index) :: rest, reason, firstError, s =>
    match attempt choice (servedFrame index choice reason) s with
    | ((.ok value, _), s) =>
      (some (.ok (value, if 0 < index then some ⟨index, reason.getD "was unavailable"⟩ else none)), s)
    | ((.error error, committed), s) =>
      -- Only the first model tried decides whether to fall back at all.
      if committed || (index == start && !(classify error).fallsBack) then (some (.error error), s)
      else tryChoices attempt rest (some (reason.getD (reasonFor (classify error)))) (some (firstError.getD error)) s

def downTheChain (reason : Option String)
    (attempt : AgentConfig → Option (ModelStreamFrame ρ) → σ → (Except String τ × Bool) × σ) (s : σ) :
    Option (Except String (τ × Option Sticky)) × σ :=
  tryChoices classify choices start attempt (choices.zipIdx.drop start) reason none s

end Chain

/-- Where a call starts, and why the primary did not answer before. -/
def startOf (choices : List AgentConfig) (sticky : Option Sticky) : ℕ × Option String :=
  match sticky with
  | some sticky => if sticky.index < choices.length then (sticky.index, some sticky.reason) else (0, none)
  | none => (0, none)

/-- `through_chain`: the outcome of the call, what comes to be sticky, and the state of the attempts. -/
def throughChain (classify : String → ModelFailureKind) (sticky : Option Sticky) (config : AgentConfig)
    (attempt : AgentConfig → Option (ModelStreamFrame ρ) → σ → (Except String τ × Bool) × σ) (s : σ) :
    Option (Except String τ) × Option Sticky × σ :=
  let choices := choiceConfigs config
  let start := startOf choices sticky
  match downTheChain classify choices start.1 start.2 attempt s with
  | (some (.ok (value, answered)), s) => (some (.ok value), answered.or sticky, s)
  | (some (.error error), s) => (some (.error error), sticky, s)
  | (none, s) => (none, sticky, s)

/-! ## Adapters and sinks -/

namespace ModelStreamFrame

def isServed : ModelStreamFrame ρ → Bool
  | .served .. => true
  | _ => false

/-- A `Final` frame. -/
def isFinal : ModelStreamFrame ρ → Bool
  | .final _ => true
  | _ => false

/-- A text delta that is not empty, or a `Final` frame. -/
def isOutput : ModelStreamFrame ρ → Bool
  | .textDelta text => text != ""
  | .final _ => true
  | _ => false

end ModelStreamFrame

/-- What an adapter does in one attempt: it emits frames of its own and reports complete usage, each next step as the
sink answered, and ends with a result. -/
inductive Script (ρ : Type)
  | done (result : Except String Unit)
  | emit (frame : ModelStreamFrame ρ) (own : frame.isServed = false) (next : Except String Unit → Script ρ)
  | completeUsage (usage : TokenUsage) (next : Except String Unit → Script ρ)

inductive SinkCall (ρ : Type)
  | emit (frame : ModelStreamFrame ρ)
  | completeUsage (usage : TokenUsage)
  deriving DecidableEq

/-- A sink: its answer to a call, after the calls before. -/
abbrev Sink (ρ : Type) := List (SinkCall ρ) → SinkCall ρ → Except String Unit

structure Delivery (ρ : Type) where
  call : SinkCall ρ
  answer : Except String Unit

/-- `AttemptSink`, with what it gave to the sink of the consumer. -/
structure AttemptSink (ρ : Type) where
  served : Option (ModelStreamFrame ρ)
  committed : Bool
  sent : List (Delivery ρ)

namespace AttemptSink

variable (sink : Sink ρ)

def forward (a : AttemptSink ρ) (call : SinkCall ρ) : Except String Unit × AttemptSink ρ :=
  let answer := sink (a.sent.map (·.call)) call
  (answer, { a with sent := a.sent ++ [⟨call, answer⟩] })

def emit (a : AttemptSink ρ) (frame : ModelStreamFrame ρ) : Except String Unit × AttemptSink ρ :=
  match frame with
  | .textDelta text => ({ a with committed := a.committed || text != "" }).forward sink (.emit frame)
  | .final _ =>
    match a.served with
    | none => ({ a with committed := true }).forward sink (.emit frame)
    | some served =>
      match ({ a with committed := true, served := none }).forward sink (.emit served) with
      | (.error error, a) => (.error error, a)
      | (.ok (), a) => a.forward sink (.emit frame)
  | _ => a.forward sink (.emit frame)

def completeUsage (a : AttemptSink ρ) (usage : TokenUsage) : Except String Unit × AttemptSink ρ :=
  a.forward sink (.completeUsage usage)

end AttemptSink

/-- An adapter with a sink: its result, what it emitted, and the sink after it. -/
def Script.run (sink : Sink ρ) :
    Script ρ → AttemptSink ρ → Except String Unit × List (ModelStreamFrame ρ) × AttemptSink ρ
  | .done result, a => (result, [], a)
  | .emit frame _ next, a =>
    let rest := (next (a.emit sink frame).1).run sink (a.emit sink frame).2
    (rest.1, frame :: rest.2.1, rest.2.2)
  | .completeUsage usage next, a => (next (a.completeUsage sink usage).1).run sink (a.completeUsage sink usage).2

/-! ## Calls -/

structure Attempt (ρ : Type) where
  choice : AgentConfig
  served : Option (ModelStreamFrame ρ)
  emitted : List (ModelStreamFrame ρ)
  sent : List (Delivery ρ)
  result : Except String Unit
  committed : Bool

/-- A call of `stream`, or of `stream_controlled` with a context: what the inner adapter does in each attempt, the sink,
and what `check_live` answers before and after an attempt. -/
structure Call (ρ : Type) where
  adapter : ℕ → AgentConfig → Script ρ
  sink : Sink ρ
  context : Option (ℕ → Except String Unit × Except String Unit)

namespace Call

variable (call : Call ρ) (choice : AgentConfig) (served : Option (ModelStreamFrame ρ)) (attempts : List (Attempt ρ))

/-- The sink of an attempt, which has been given all that the attempts before it sent. -/
def sinkAfter : Sink ρ := fun sent => call.sink ((attempts.flatMap fun a => a.sent.map (·.call)) ++ sent)

/-- The inner adapter with an `AttemptSink`. -/
def inner : Except String Unit × List (ModelStreamFrame ρ) × AttemptSink ρ :=
  (call.adapter attempts.length choice).run (call.sinkAfter attempts) ⟨served, false, []⟩

/-- The body of `stream` for one choice. -/
def streamAttempt : Attempt ρ :=
  let out := call.inner choice served attempts
  { choice, served, emitted := out.2.1, sent := out.2.2.sent, result := out.1, committed := out.2.2.committed }

/-- The body of `stream_controlled` for one choice. -/
def streamControlledAttempt (live : ℕ → Except String Unit × Except String Unit) : Attempt ρ :=
  let n := attempts.length
  let dead := match (live n).2 with
    | .ok () => false
    | .error _ => true
  match (live n).1 with
  | .ok () =>
    let out := call.inner choice served attempts
    { choice, served, emitted := out.2.1, sent := out.2.2.sent, result := out.1
      committed := out.2.2.committed || dead }
  | .error error => { choice, served, emitted := [], sent := [], result := .error error, committed := dead }

/-- One attempt, which is added to those before. -/
def attempt : (Except String Unit × Bool) × List (Attempt ρ) :=
  let a := match call.context with
    | none => call.streamAttempt choice served attempts
    | some live => call.streamControlledAttempt choice served attempts live
  ((a.result, a.committed), attempts ++ [a])

end Call

structure CallResult (ρ : Type) where
  start : ℕ
  attempts : List (Attempt ρ)
  outcome : Option (Except String Unit)

/-- `FallbackModelAdapter::stream` and `stream_controlled`. -/
def stream (classify : String → ModelFailureKind) (config : AgentConfig) (sticky : Option Sticky) (call : Call ρ) :
    CallResult ρ × Option Sticky :=
  let out := throughChain classify sticky config call.attempt []
  ({ start := (startOf (choiceConfigs config) sticky).1, attempts := out.2.2, outcome := out.1 }, out.2.1)

/-- The calls of a run, one after another, on an adapter that is sticky. -/
def runFrom (classify : String → ModelFailureKind) (config : AgentConfig) :
    Option Sticky → List (Call ρ) → List (CallResult ρ)
  | _, [] => []
  | sticky, call :: calls =>
    (stream classify config sticky call).1 :: runFrom classify config (stream classify config sticky call).2 calls

def run (classify : String → ModelFailureKind) (config : AgentConfig) (calls : List (Call ρ)) : List (CallResult ρ) :=
  runFrom classify config none calls

end AnimaCore.FallbackModel
