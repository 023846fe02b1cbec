import AnimaCore.FailureGuard.Streaks
import AnimaCore.TurnRecovery

/-!
# AnimaCore.AgentLoop — the loop of an agent run

`run_with_context_and_tools_impl` of `runtime.rs`: a model is called until it answers, with the tools it asks for run in
between.  A run is stopped, steered or refused at its checkpoints, and its last call may have to do without tools.

* `Answers` is what everything outside the loop answers in one round, at each place where the loop asks; a later place may
  answer anything, whatever an earlier one said.
* `Entry` is a message by what it was built from.  The tags of the run, the flags a provider put on its text, events, usage,
  stored steps and the frames of single tools are left out; `Request` has the messages before tool outputs are pruned.
* `round` ends with the result of the run (`.error`) or with the loop for the next round (`.ok`).
* `Paired`: every tool call is answered, once and in its place.  `Bracketed`: every step that was started was finished.
* `answer_spec`, `round_spec`: what one round keeps.  `run_settles`: what a whole run comes to.
-/

namespace AnimaCore.AgentLoop

open Lib RunDelta Approvals FailureGuard TurnRecovery

def defaultToolIterations : ℕ := 8

def maxEvaluatorRetries : ℕ := 2

/-! ## Data -/

/-- The texts of a signal that was cancelled: `run_error`, `tool_result`, and `tool_result` of the control's own signal. -/
structure Cancelled where
  runError : String
  toolResult : String
  controlResult : String

def runStoppedError : String := "stopped"

/-- The texts of a run without a cancelled signal. -/
def Cancelled.owner : Cancelled :=
  let text := "Cancelled before running (stopped by owner)"
  { runError := runStoppedError, toolResult := text, controlResult := text }

inductive Entry
  | user (content : Content)
  | system (text : String)
  | assistant (content : Content) (calls : List ToolCall) (markers : List String)
  | tool (call : ToolCall) (result : TaskResult Content) (recovered : Bool)

def Entry.asks : Entry → List ToolCall
  | .assistant _ calls _ => calls
  | _ => []

def Entry.answers : Entry → Option ToolCall
  | .tool call _ _ => some call
  | _ => none

/-- What a prompt ends with, by the name of the text. -/
inductive Guidance
  | budgetWrapup
  | failureWrapup
  | exactFailure
  | repeatedSuccess
  | repeatedToolCycle
  deriving DecidableEq

structure Request where
  tools : Option (List String)
  guidance : List Guidance
  messages : List Entry

/-- The call is the last one, to wrap up. -/
def Request.wrapsUp (r : Request) : Prop := .budgetWrapup ∈ r.guidance ∨ .failureWrapup ∈ r.guidance

/-- A frame; `message` is the position of a message of the run. -/
inductive Frame
  | stepStarted (step : ℕ) (request : Request)
  | stepFinished (step : ℕ) (message : Option ℕ)

inductive ModelStopReason
  | finish
  | toolCall
  | maxTokens
  deriving DecidableEq

structure ModelGenerateResponse where
  content : Content
  toolCalls : Option (List ToolCall)
  stopReason : ModelStopReason

inductive EvaluatorDecision
  | accept
  | retry (feedback : String)
  | abort (reason : String)

/-- The places where the loop looks for a stop. -/
inductive Checkpoint
  | round | steered | refreshFailed | refreshed | beforeModelFailed | beforeModel | streamed | respondedFailed
  | streamFailed | toolBatch | settledFailed | settled

structure Answers where
  stop : Checkpoint → Option Cancelled
  steered : List Content
  refreshed : Except String (Option (List String))
  visible : Option (List String)
  providers : Option String
  save : TurnPhase → Option String
  /-- `none`: the call was dropped; else its error, if any. -/
  streamed : Option (Option String)
  repetition : Bool
  response : Option ModelGenerateResponse
  partialText : String
  failure : Option String
  evaluation : Except String EvaluatorDecision
  /-- the result of the call at a position, and whether it was recovered -/
  results : ℕ → TaskResult Content × Bool
  budgetFailure : Option String
  elapsed : ℕ

structure Config (φ : Type) where
  host : FailureHost φ
  maxToolIterations : ℕ
  isRunaway : String → Bool

structure Loop (φ : Type) where
  messages : List Entry
  conversation : List Entry
  frames : List Frame
  status : AgentStatus
  lastTask : Option (TaskResult Content)
  tools : Option (List String)
  iterations : ℕ
  evaluatorRetries : ℕ
  modelCalls : ℕ
  exactFailures : ResultStreak φ
  successfulResults : ResultStreak φ
  successfulCycle : SuccessfulToolCycle φ
  failureHint : Bool
  successHint : Bool
  cycleHint : Bool
  refusalUsed : Bool

def failedWith (error : String) (elapsed : ℕ) : TaskResult Content :=
  { status := .error, data := none, error := some error, durationMs := elapsed }

/-- The loop when the run returned, with its result. -/
abbrev Exit (φ : Type) := Loop φ × TaskResult Content

variable {φ : Type}

namespace Loop

/-- `record_message_in_room`, of some messages. -/
def record (l : Loop φ) (entries : List Entry) : Loop φ := { l with messages := l.messages ++ entries }

/-- Recorded, and pushed to the conversation. -/
def say (l : Loop φ) (entries : List Entry) : Loop φ :=
  { l with messages := l.messages ++ entries, conversation := l.conversation ++ entries }

def finishStep (l : Loop φ) (message : Option ℕ) : Loop φ :=
  { l with frames := l.frames ++ [.stepFinished l.modelCalls message] }

def finishStopped (l : Loop φ) (cancelled : Cancelled) (elapsed : ℕ) : Exit φ :=
  let result := failedWith cancelled.runError elapsed
  ({ l with status := if cancelled.runError = runStoppedError then .idle else .failed, lastTask := some result }, result)

/-- `mark_failed`, and the result that is returned. -/
def fail (l : Loop φ) (error : String) (elapsed : ℕ) : Exit φ :=
  ({ l with status := .failed, lastTask := some (failedWith error elapsed) }, failedWith error elapsed)

/-- `record_unfinished_step`, and the frame after it. -/
def recordUnfinished (l : Loop φ) (text marker : String) : Loop φ :=
  if text = "" then l.finishStep none
  else (l.record [.assistant { text, attachments := none, metadata := none } [] [marker]]).finishStep l.messages.length

def failStep (l : Loop φ) (text marker error : String) (elapsed : ℕ) : Exit φ :=
  (l.recordUnfinished text marker).fail error elapsed

/-- `record_unexecuted_model_response`; `markers` are those the loop has put on the response. -/
def recordUnexecuted (l : Loop φ) (response : ModelGenerateResponse) (reason marker : String) (markers : List String) :
    Loop φ :=
  match response.toolCalls.getD [] with
  | [] => l.recordUnfinished response.content.text marker
  | call :: calls =>
    ((l.record [.assistant response.content (call :: calls) markers]).finishStep l.messages.length).record
      ((call :: calls).map fun c => .tool c (failedWith reason 0) false)

def resetStreaks (l : Loop φ) : Loop φ :=
  { l with
    exactFailures := .default, successfulResults := .default, successfulCycle := l.successfulCycle.resetHistory }

def resetGuards (l : Loop φ) : Loop φ :=
  { l.resetStreaks with failureHint := false, successHint := false, cycleHint := false }

/-- What the guards make of the results of one round. -/
def observe [DecidableEq φ] (host : FailureHost φ) (l : Loop φ) : List (ToolCall × TaskResult Content × Bool) → Loop φ
  | [(call, result, recovered)] =>
    let failures := ExactFailureStreak.observe host l.exactFailures call result recovered
    let successes := SuccessfulResultStreak.observe host.toHost l.successfulResults call result recovered
    let cycle := l.successfulCycle.observe host.toHost call result recovered
    { l with
      exactFailures := failures.2, failureHint := failures.1, successfulResults := successes.2
      successHint := successes.1, successfulCycle := cycle.2, cycleHint := cycle.1 }
  | _ => l.resetGuards

end Loop

/-! ## One round -/

/-- `stop_requested` and `finish_stopped`. -/
def Answers.checkpoint (a : Answers) (place : Checkpoint) (l : Loop φ) : Except (Exit φ) (Loop φ) :=
  match a.stop place with
  | some cancelled => .error (l.finishStopped cancelled a.elapsed)
  | none => .ok l

/-- An error that ends the run, unless it was stopped. -/
def Answers.failUnlessStopped (a : Answers) (place : Checkpoint) (error : String) (l : Loop φ) :
    Except (Exit φ) (Loop φ) := do
  let l ← a.checkpoint place l
  .error (l.fail error a.elapsed)

/-- From the top of the loop to the tools of the run. -/
def prepare (a : Answers) (l : Loop φ) : Except (Exit φ) (Loop φ) := do
  let l ← a.checkpoint .round l
  let steered := l.say (a.steered.map .user)
  let l ← a.checkpoint .steered (if a.steered = [] then steered else steered.resetGuards)
  match a.refreshed with
  | .error error => a.failUnlessStopped .refreshFailed error l
  | .ok tools => a.checkpoint .refreshed { l with tools := tools.or l.tools }

structure Wrapup where
  budget : Bool
  failure : Bool

def Wrapup.any (w : Wrapup) : Bool := w.budget || w.failure

def wrapupOf (cfg : Config φ) (l : Loop φ) : Wrapup :=
  { budget := cfg.maxToolIterations ≤ l.iterations, failure := ExactFailureStreak.exhausted l.exactFailures }

/-- The tools of the call, and what its prompt ends with. -/
def requestOf (w : Wrapup) (a : Answers) (l : Loop φ) : Request where
  tools := if w.any then some [] else match a.visible with
    | some names => l.tools.map fun tools => tools.filter fun tool => names.contains tool
    | none => l.tools
  guidance := (if w.budget then [.budgetWrapup] else if w.failure then [.failureWrapup] else []) ++
    (if l.failureHint then [.exactFailure] else []) ++ (if l.successHint then [.repeatedSuccess] else []) ++
    (if l.cycleHint then [.repeatedToolCycle] else [])
  messages := l.conversation

/-- Up to the call of the model. -/
def request (w : Wrapup) (a : Answers) (l : Loop φ) : Except (Exit φ) (Loop φ) :=
  match a.providers with
  | some error => .error (l.fail error a.elapsed)
  | none =>
    let asked := requestOf w a l
    let l := { l with failureHint := false, successHint := false, cycleHint := false, modelCalls := l.modelCalls + 1 }
    match a.save .beforeModel with
    | some error => a.failUnlessStopped .beforeModelFailed error l
    | none => do
      let l ← a.checkpoint .beforeModel l
      return { l with frames := l.frames ++ [.stepStarted l.modelCalls asked] }

def Wrapup.rejection (w : Wrapup) (response : ModelGenerateResponse) : Option String :=
  if w.any = false then none
  else if response.stopReason = .toolCall ∨ response.toolCalls.getD [] ≠ [] then
    some (if w.budget then "tool iteration limit exceeded" else "exact failure limit exceeded")
  else if response.stopReason = .maxTokens then
    some (if w.budget then "budget wrap-up was truncated" else "failure wrap-up was truncated")
  else if trimmedEmpty response.content.text then
    some (if w.budget then "budget wrap-up returned empty text" else "failure wrap-up returned empty text")
  else none

def truncatedOf (response : ModelGenerateResponse) : List String :=
  if response.stopReason = .maxTokens then ["modelOutputTruncated"] else []

/-- The markers that the loop itself puts on an answer. -/
def markersOf (w : Wrapup) (response : ModelGenerateResponse) : List String :=
  truncatedOf response ++ (if w.budget then ["budgetWrapup"] else []) ++ (if w.failure then ["noProgressWrapup"] else [])

/-- A text that the model means as its answer. -/
def evaluate (w : Wrapup) (a : Answers) (response : ModelGenerateResponse) (l : Loop φ) : Except (Exit φ) (Loop φ) :=
  let l := l.resetStreaks
  let text := response.content.text
  match a.evaluation with
  | .error error => .error (l.failStep text "incomplete" error a.elapsed)
  | .ok .accept =>
    let result : TaskResult Content :=
      { status := .success, data := some response.content, error := none, durationMs := a.elapsed }
    .error ({ (l.record [.assistant response.content [] (markersOf w response)]).finishStep l.messages.length with
      status := .completed, lastTask := some result }, result)
  | .ok (.retry feedback) =>
    if w.any ∨ maxEvaluatorRetries ≤ l.evaluatorRetries then
      .error (l.failStep text "revised" "evaluator retry limit exceeded" a.elapsed)
    else
      .ok (((({ l with evaluatorRetries := l.evaluatorRetries + 1 } : Loop φ).say
        [.assistant response.content [] (truncatedOf response ++ ["revised"])]).finishStep l.messages.length).say
          [.system ("Evaluator requested a revision: " ++ feedback ++ "\nRevise your previous answer and try again.")])
  | .ok (.abort reason) => .error (l.failStep text "revised" reason a.elapsed)

/-- `bounded_id`, and the id is new. -/
def freshId (call earlier : ToolCall) : Bool :=
  earlier.id.utf8ByteSize ≤ maxCapabilityIdBytes && !trimmedEmpty earlier.id && earlier.id != call.id

def recoverableUnconfiguredCall (host : FailureHost φ) (call : ToolCall) (entries : List Entry) : Bool :=
  let bounded (value : String) : Bool := value.utf8ByteSize ≤ maxCapabilityIdBytes && !trimmedEmpty value
  bounded call.id && bounded call.name && (host.boundedArguments call.args).isSome &&
    entries.all fun entry => (entry.asks ++ entry.answers.toList).all (freshId call)

/-- The tools that the model asked for. -/
def callTools [DecidableEq φ] (cfg : Config φ) (a : Answers) (response : ModelGenerateResponse) (l : Loop φ) :
    Except (Exit φ) (Loop φ) :=
  let text := response.content.text
  if cfg.maxToolIterations ≤ l.iterations then
    .error (l.failStep text "incomplete" "tool iteration limit exceeded" a.elapsed)
  else if response.toolCalls.getD [] = [] then
    .error (l.failStep text "incomplete" "model requested tools without tool calls" a.elapsed)
  else
    let calls := response.toolCalls.getD []
    let asked := (l.say [.assistant response.content calls []]).finishStep l.messages.length
    match calls.find? fun call => !l.tools.any fun tools => tools.contains call.name with
    | some denied =>
      if !l.refusalUsed && calls.length == 1 &&
          recoverableUnconfiguredCall cfg.host denied (l.conversation ++ l.messages) then
        let refusal := failedWith ("This tool is not configured for this agent. Continue only with configured tools, or " ++
          "explain the limitation.") 0
        .ok ({ asked.resetGuards with refusalUsed := true, iterations := l.iterations + 1 }.say
          [.tool denied refusal false])
      else
        .error (l.failStep text "incomplete" ("tool '" ++ denied.name ++ "' is not configured for this agent") a.elapsed)
    | none =>
      let asked := { asked with iterations := l.iterations + 1 }
      match a.stop .toolBatch with
      | some cancelled =>
        .error ((asked.record (calls.map fun call => .tool call (failedWith cancelled.controlResult 0) false)).finishStopped
          cancelled a.elapsed)
      | none =>
        let results := calls.zipIdx.map fun entry => (entry.1, a.results entry.2)
        let l := (asked.observe cfg.host results).say (results.map fun r => .tool r.1 r.2.1 r.2.2)
        match a.save .toolsSettled with
        | some error => a.failUnlessStopped .settledFailed error l
        | none => do
          let l ← a.checkpoint .settled l
          match a.budgetFailure with
          | some error => .error (l.fail error a.elapsed)
          | none => return l

/-- What the loop makes of a response. -/
def accept [DecidableEq φ] (cfg : Config φ) (w : Wrapup) (a : Answers) (streamFailure : Option String)
    (response : ModelGenerateResponse) (l : Loop φ) : Except (Exit φ) (Loop φ) :=
  match a.save .modelResponded with
  | some error =>
    match a.stop .respondedFailed with
    | some cancelled =>
      .error ((l.recordUnexecuted response cancelled.toolResult "stopped" []).finishStopped cancelled a.elapsed)
    | none => .error ((l.recordUnexecuted response error "incomplete" []).fail error a.elapsed)
  | none =>
    match streamFailure.or a.failure with
    | some error =>
      a.failUnlessStopped .streamFailed error (l.recordUnexecuted response error "incomplete" (truncatedOf response))
    | none =>
      if cfg.isRunaway response.content.text then
        .error (l.failStep "[the reply degenerated into a repetition loop and was interrupted]" "incomplete"
          "model reply interrupted after runaway repetition" a.elapsed)
      else match w.rejection response with
        | some error => .error (l.failStep response.content.text "incomplete" error a.elapsed)
        | none => if response.stopReason = .toolCall then callTools cfg a response l else evaluate w a response l

/-- From the call of the model to the end of the round. -/
def answer [DecidableEq φ] (cfg : Config φ) (w : Wrapup) (a : Answers) (l : Loop φ) : Except (Exit φ) (Loop φ) :=
  if a.streamed.isNone ∨ (a.stop .streamed).isSome then
    let cancelled := (a.stop .streamed).getD .owner
    let l := match a.response with
      | some response => l.recordUnexecuted response cancelled.toolResult "stopped" []
      | none => l.recordUnfinished a.partialText "stopped"
    .error (l.finishStopped cancelled a.elapsed)
  else
    let streamFailure := if a.repetition then some "model reply interrupted after runaway repetition" else a.streamed.join
    match a.response with
    | none =>
      .error (l.failStep a.partialText "incomplete" (streamFailure.getD "model stream ended without a final response")
        a.elapsed)
    | some response => accept cfg w a streamFailure response l

def round [DecidableEq φ] (cfg : Config φ) (a : Answers) (l : Loop φ) : Except (Exit φ) (Loop φ) := do
  let l ← prepare a l
  let w := wrapupOf cfg l
  let l ← request w a l
  answer cfg w a l

/-- At most `rounds` rounds, from the one numbered `i`. -/
def loop [DecidableEq φ] (cfg : Config φ) (world : ℕ → Answers) : ℕ → ℕ → Loop φ → Option (Exit φ)
  | 0, _, _ => none
  | rounds + 1, i, l =>
    match round cfg (world i) l with
    | .error exit => some exit
    | .ok next => loop cfg world rounds (i + 1) next

/-- An agent before a run: what it retained, and the names of its tools. -/
structure Agent where
  messages : List Entry
  tools : Option (List String)

def Agent.start (agent : Agent) (history : List Entry) (input : Content) : Loop φ where
  messages := agent.messages ++ [.user input]
  conversation := history ++ [.user input]
  frames := []
  status := .running
  lastTask := none
  tools := agent.tools
  iterations := 0
  evaluatorRetries := 0
  modelCalls := 0
  exactFailures := .default
  successfulResults := .default
  successfulCycle := .default
  failureHint := false
  successHint := false
  cycleHint := false
  refusalUsed := false

def run [DecidableEq φ] (cfg : Config φ) (world : ℕ → Answers) (rounds : ℕ) (agent : Agent) (history : List Entry)
    (input : Content) : Option (Exit φ) := loop cfg world rounds 0 (agent.start history input)

/-! ## What a round keeps -/

/-- Each call is answered right after the entry that asks for it, once and in order, and nothing else is answered. -/
inductive Paired : List Entry → Prop
  | nothing : Paired []
  | block {before : List Entry} (h : Paired before) (e : Entry) (he : e.answers = none) (results : List Entry)
      (hresults : results.map Entry.answers = e.asks.map some) : Paired (before ++ e :: results)

/-- The conversation of a request is paired, and it has no tools if it is the last one. -/
def Request.Sound (r : Request) : Prop := Paired r.messages ∧ (r.wrapsUp → r.tools = some [])

/-- There were `n` steps, each started with a sound request and then finished, and only the `last` one may wrap up. -/
inductive Bracketed : ℕ → Bool → List Frame → Prop
  | nothing : Bracketed 0 false []
  | step {n : ℕ} {frames : List Frame} (h : Bracketed n false frames) (r : Request) (hr : r.Sound) (message : Option ℕ)
      (last : Bool) (hlast : last = false → ¬r.wrapsUp) :
      Bracketed (n + 1) last (frames ++ [.stepStarted (n + 1) r, .stepFinished (n + 1) message])

/-- The loop at its top. -/
structure Ready (cfg : Config φ) (l : Loop φ) : Prop where
  messages : Paired l.messages
  conversation : Paired l.conversation
  frames : Bracketed l.modelCalls false l.frames
  calls : l.modelCalls = l.iterations + l.evaluatorRetries
  iterations : l.iterations ≤ cfg.maxToolIterations
  retries : l.evaluatorRetries ≤ maxEvaluatorRetries

/-- The loop while a step is open. -/
structure Asked (cfg : Config φ) (w : Wrapup) (l : Loop φ) : Prop where
  messages : Paired l.messages
  conversation : Paired l.conversation
  frames : ∃ before r, Bracketed (l.iterations + l.evaluatorRetries) false before ∧ r.Sound ∧
    (w.any = false → ¬r.wrapsUp) ∧ l.frames = before ++ [.stepStarted l.modelCalls r]
  calls : l.modelCalls = l.iterations + l.evaluatorRetries + 1
  iterations : l.iterations ≤ cfg.maxToolIterations
  retries : l.evaluatorRetries ≤ maxEvaluatorRetries

/-- What holds of a loop whenever it may return. -/
structure Closed (cfg : Config φ) (l : Loop φ) : Prop where
  messages : Paired l.messages
  frames : ∃ n last, Bracketed n last l.frames
  calls : l.modelCalls ≤ cfg.maxToolIterations + maxEvaluatorRetries + 1

/-- A run that returned: its loop is closed, and its result is the task it recorded, with the status that belongs to it. -/
def Settled (cfg : Config φ) (exit : Exit φ) : Prop :=
  Closed cfg exit.1 ∧ exit.1.lastTask = some exit.2 ∧ exit.1.status ≠ .running ∧
    (exit.1.status = .completed ↔ exit.2.status = .success)

/-- `P` of the next round's loop, or `Q` of the exit. -/
def Ends (P : Loop φ → Prop) (Q : Exit φ → Prop) : Except (Exit φ) (Loop φ) → Prop
  | .ok l => P l
  | .error exit => Q exit

theorem Ends.bind {P R : Loop φ → Prop} {Q : Exit φ → Prop} {x : Except (Exit φ) (Loop φ)}
    {f : Loop φ → Except (Exit φ) (Loop φ)} (hx : Ends P Q x) (hf : ∀ l, P l → Ends R Q (f l)) :
    Ends R Q (x >>= f) := by
  rcases x with exit | l
  · exact hx
  · exact hf l hx

theorem Paired.entry {before : List Entry} (h : Paired before) (e : Entry) (he : e.answers = none) (hasks : e.asks = []) :
    Paired (before ++ [e]) := h.block e he [] (by rw [hasks]; rfl)

theorem Paired.users {before : List Entry} (h : Paired before) (contents : List Content) :
    Paired (before ++ contents.map .user) := by
  induction contents using List.reverseRecOn with
  | nil => rwa [List.map_nil, List.append_nil]
  | append_singleton contents content ih =>
    rw [List.map_append, ← List.append_assoc]
    exact ih.entry (.user content) rfl rfl

theorem Paired.batch {before : List Entry} (h : Paired before) (content : Content) (calls : List ToolCall)
    (markers : List String) (result : ToolCall → TaskResult Content) :
    Paired (before ++ [.assistant content calls markers] ++ calls.map fun call => .tool call (result call) false) := by
  rw [List.append_assoc]
  refine h.block (.assistant content calls markers) rfl (calls.map fun call => .tool call (result call) false) ?_
  rw [List.map_map]
  rfl

section

variable {cfg : Config φ} {w : Wrapup} {a : Answers} {l : Loop φ} {P : Loop φ → Prop} {error : String} {elapsed : ℕ}

theorem Closed.fail (h : Closed cfg l) : Settled cfg (l.fail error elapsed) :=
  ⟨⟨h.messages, h.frames, h.calls⟩, rfl, by rintro ⟨⟩, iff_of_false (by rintro ⟨⟩) (by rintro ⟨⟩)⟩

theorem Closed.finishStopped (h : Closed cfg l) (cancelled : Cancelled) :
    Settled cfg (l.finishStopped cancelled elapsed) := by
  refine ⟨⟨h.messages, h.frames, h.calls⟩, rfl, ?_, iff_of_false ?_ (by rintro ⟨⟩)⟩
  all_goals
    show (if _ then AgentStatus.idle else .failed) ≠ _
    split_ifs <;> rintro ⟨⟩

theorem Closed.checkpoint (h : Closed cfg l) (hP : P l) (place : Checkpoint) :
    Ends P (Settled cfg) (a.checkpoint place l) := by
  unfold Answers.checkpoint
  rcases a.stop place with _ | cancelled
  · exact hP
  · exact h.finishStopped cancelled

theorem Closed.failure (h : Closed cfg l) (place : Checkpoint) : Ends P (Settled cfg) (a.failUnlessStopped place error l) :=
  Ends.bind (P := Closed cfg) (h.checkpoint h place) fun _ hclosed => hclosed.fail

theorem Ready.closed (h : Ready cfg l) : Closed cfg l := by
  have hcalls := h.calls
  have hiterations := h.iterations
  have hretries := h.retries
  exact ⟨h.messages, ⟨_, _, h.frames⟩, by omega⟩

/-- The step that is open is finished. -/
theorem Asked.finish (h : Asked cfg w l) (message : Option ℕ) :
    Bracketed l.modelCalls w.any (l.frames ++ [.stepFinished l.modelCalls message]) := by
  obtain ⟨before, r, hbefore, hsound, hplain, hframes⟩ := h.frames
  rw [hframes, h.calls, List.append_assoc]
  exact hbefore.step r hsound message w.any hplain

theorem Asked.closes (h : Asked cfg w l) {l' : Loop φ} {message : Option ℕ} (hmessages : Paired l'.messages)
    (hframes : l'.frames = l.frames ++ [.stepFinished l.modelCalls message]) (hcalls : l'.modelCalls = l.modelCalls) :
    Closed cfg l' := by
  have hbefore := h.calls
  have hiterations := h.iterations
  have hretries := h.retries
  exact ⟨hmessages, ⟨_, _, hframes ▸ h.finish message⟩, by omega⟩

theorem Asked.recordUnfinished (h : Asked cfg w l) (text marker : String) : Closed cfg (l.recordUnfinished text marker) := by
  unfold Loop.recordUnfinished
  split_ifs
  · exact h.closes h.messages rfl rfl
  · exact h.closes (h.messages.entry _ rfl rfl) rfl rfl

theorem Asked.recordUnexecuted (h : Asked cfg w l) (response : ModelGenerateResponse) (reason marker : String)
    (markers : List String) : Closed cfg (l.recordUnexecuted response reason marker markers) := by
  unfold Loop.recordUnexecuted
  split
  · exact h.recordUnfinished _ marker
  · exact h.closes (h.messages.batch _ _ _ _) rfl rfl

theorem Asked.failStep (h : Asked cfg w l) (text marker : String) : Settled cfg (l.failStep text marker error elapsed) :=
  (h.recordUnfinished text marker).fail

theorem evaluate_spec (h : Asked cfg w l) (response : ModelGenerateResponse) :
    Ends (fun next => Ready cfg next ∧ next.modelCalls = l.modelCalls) (Settled cfg) (evaluate w a response l) := by
  have hreset : Asked cfg w l.resetStreaks := ⟨h.messages, h.conversation, h.frames, h.calls, h.iterations, h.retries⟩
  have hcalls := h.calls
  unfold evaluate
  rcases a.evaluation with error | _ | feedback | reason
  · exact hreset.failStep _ _
  · have hclosed : Closed cfg ((l.resetStreaks.record [.assistant response.content [] (markersOf w response)]).finishStep
        l.messages.length) := hreset.closes (h.messages.entry _ rfl rfl) rfl rfl
    exact ⟨⟨hclosed.messages, hclosed.frames, hclosed.calls⟩, rfl, by rintro ⟨⟩, iff_of_true rfl rfl⟩
  · show Ends _ _ (if w.any = true ∨ maxEvaluatorRetries ≤ l.evaluatorRetries then _ else _)
    split_ifs with hlimit
    · exact hreset.failStep _ _
    · rw [not_or, Bool.not_eq_true] at hlimit
      refine ⟨⟨?_, ?_, hlimit.1 ▸ h.finish _, ?_, h.iterations, ?_⟩, rfl⟩
      · exact (h.messages.entry _ rfl rfl).entry _ rfl rfl
      · exact (h.conversation.entry _ rfl rfl).entry _ rfl rfl
      · show l.modelCalls = l.iterations + (l.evaluatorRetries + 1)
        omega
      · show l.evaluatorRetries + 1 ≤ maxEvaluatorRetries
        omega
  · exact hreset.failStep _ _

theorem prepare_spec (h : Ready cfg l) :
    Ends (fun next => Ready cfg next ∧ next.modelCalls = l.modelCalls) (Settled cfg) (prepare a l) := by
  unfold prepare
  refine Ends.bind (P := (l = ·)) (h.closed.checkpoint rfl .round) fun _ heq => ?_
  subst heq
  have hsteered : Ready cfg (l.say (a.steered.map .user)) :=
    ⟨h.messages.users _, h.conversation.users _, h.frames, h.calls, h.iterations, h.retries⟩
  have hready : Ready cfg
      (if a.steered = [] then l.say (a.steered.map .user) else (l.say (a.steered.map .user)).resetGuards) ∧
      (if a.steered = [] then l.say (a.steered.map .user) else (l.say (a.steered.map .user)).resetGuards).modelCalls =
        l.modelCalls := by
    split_ifs
    · exact ⟨hsteered, rfl⟩
    · exact ⟨⟨hsteered.messages, hsteered.conversation, hsteered.frames, hsteered.calls, h.iterations, h.retries⟩, rfl⟩
  refine Ends.bind (P := fun next => Ready cfg next ∧ next.modelCalls = l.modelCalls)
    (hready.1.closed.checkpoint hready .steered) fun next hnext => ?_
  rcases a.refreshed with error | tools
  · exact hnext.1.closed.failure .refreshFailed
  · have hnext' : Ready cfg { next with tools := tools.or next.tools } :=
      ⟨hnext.1.messages, hnext.1.conversation, hnext.1.frames, hnext.1.calls, hnext.1.iterations, hnext.1.retries⟩
    exact hnext'.closed.checkpoint ⟨hnext', hnext.2⟩ .refreshed

theorem wrapsUp_iff : (requestOf w a l).wrapsUp ↔ w.any = true := by
  unfold Request.wrapsUp requestOf Wrapup.any
  rcases w with ⟨_ | _, _ | _⟩ <;> simp

theorem request_spec (h : Ready cfg l) :
    Ends (fun next => Asked cfg w next ∧ next.modelCalls = l.modelCalls + 1) (Settled cfg) (request w a l) := by
  unfold request
  rcases a.providers with _ | error
  · have hcalls := h.calls
    have hclosed := h.closed.calls
    have hopen : Closed cfg { l with
        failureHint := false, successHint := false, cycleHint := false, modelCalls := l.modelCalls + 1 } := by
      have hiterations := h.iterations
      have hretries := h.retries
      exact ⟨h.messages, ⟨_, _, h.frames⟩, by show l.modelCalls + 1 ≤ _; omega⟩
    have hsound : (requestOf w a l).Sound := by
      refine ⟨h.conversation, fun hwraps => ?_⟩
      show (if w.any then _ else _) = _
      rw [if_pos (wrapsUp_iff.mp hwraps)]
    dsimp only
    rcases a.save .beforeModel with _ | error
    · refine Ends.bind (P := (_ = ·)) (hopen.checkpoint rfl .beforeModel) fun _ heq => ?_
      subst heq
      refine ⟨⟨h.messages, h.conversation, ⟨l.frames, requestOf w a l, ?_, hsound, fun hw hwraps => ?_, rfl⟩, ?_,
        h.iterations, h.retries⟩, rfl⟩
      · exact hcalls ▸ h.frames
      · rw [wrapsUp_iff, hw] at hwraps
        cases hwraps
      · show l.modelCalls + 1 = _
        rw [hcalls]
    · exact hopen.failure .beforeModelFailed
  · exact h.closed.fail

variable [DecidableEq φ]

theorem observe_same (host : FailureHost φ) (results : List (ToolCall × TaskResult Content × Bool)) :
    ∃ e s c hf hs hc, l.observe host results = { l with
      exactFailures := e, successfulResults := s, successfulCycle := c
      failureHint := hf, successHint := hs, cycleHint := hc } := by
  rcases results with _ | ⟨_, _ | _⟩
  · exact ⟨_, _, _, _, _, _, rfl⟩
  · exact ⟨_, _, _, _, _, _, rfl⟩
  · exact ⟨_, _, _, _, _, _, rfl⟩

theorem callTools_spec (h : Asked cfg w l) (hw : w.any = false) (response : ModelGenerateResponse) :
    Ends (fun next => Ready cfg next ∧ next.modelCalls = l.modelCalls) (Settled cfg) (callTools cfg a response l) := by
  have hcalls := h.calls
  unfold callTools
  dsimp only
  by_cases hlimit : cfg.maxToolIterations ≤ l.iterations
  · rw [if_pos hlimit]
    exact h.failStep _ _
  rw [if_neg hlimit]
  by_cases hnone : response.toolCalls.getD [] = []
  · rw [if_pos hnone]
    exact h.failStep _ _
  rw [if_neg hnone]
  generalize response.toolCalls.getD [] = calls
  have hframes : Bracketed l.modelCalls false (l.frames ++ [.stepFinished l.modelCalls (some l.messages.length)]) :=
    hw ▸ h.finish _
  have hnext : l.modelCalls = l.iterations + 1 + l.evaluatorRetries := by omega
  rcases hdenied : calls.find? _ with _ | denied
  · dsimp only
    rcases a.stop .toolBatch with _ | cancelled
    · have hpaired : ∀ before, Paired before → Paired (before ++ [.assistant response.content calls []] ++
          (calls.zipIdx.map fun entry => (entry.1, a.results entry.2)).map fun r => .tool r.1 r.2.1 r.2.2) := by
        intro before hbefore
        rw [List.append_assoc]
        refine hbefore.block (.assistant response.content calls []) rfl
          ((calls.zipIdx.map fun entry => (entry.1, a.results entry.2)).map fun r => .tool r.1 r.2.1 r.2.2) ?_
        show _ = calls.map some
        conv_rhs => rw [← List.zipIdx_map_fst 0 calls]
        rw [List.map_map, List.map_map, List.map_map]
        rfl
      obtain ⟨e, s, c, hf, hs, hc, hobserved⟩ := @observe_same φ
        { (l.say [.assistant response.content calls []]).finishStep l.messages.length with iterations := l.iterations + 1 } _
        cfg.host (calls.zipIdx.map fun entry => (entry.1, a.results entry.2))
      dsimp only
      rw [hobserved]
      generalize hlast : Loop.say _ _ = last
      have hready : Ready cfg last ∧ last.modelCalls = l.modelCalls := by
        subst hlast
        exact ⟨⟨hpaired _ h.messages, hpaired _ h.conversation, hframes, hnext, Nat.lt_of_not_le hlimit, h.retries⟩, rfl⟩
      rcases a.save .toolsSettled with _ | error
      · refine Ends.bind (P := fun next => Ready cfg next ∧ next.modelCalls = l.modelCalls)
          (hready.1.closed.checkpoint hready .settled) fun final hfinal => ?_
        rcases a.budgetFailure with _ | error
        · exact hfinal
        · exact hfinal.1.closed.fail
      · exact hready.1.closed.failure .settledFailed
    · refine Closed.finishStopped ?_ cancelled
      exact h.closes (h.messages.batch _ _ _ _) rfl rfl
  · dsimp only
    split_ifs with hrefusal
    · have hone : calls = [denied] := by
        simp only [Bool.and_eq_true, beq_iff_eq] at hrefusal
        obtain ⟨only, rfl⟩ := List.length_eq_one_iff.mp hrefusal.1.2
        rw [List.mem_singleton.mp (List.mem_of_find?_eq_some hdenied)]
      subst hone
      refine ⟨⟨?_, ?_, hframes, hnext, Nat.lt_of_not_le hlimit, h.retries⟩, rfl⟩
      · exact h.messages.batch response.content [denied] [] fun _ => failedWith _ 0
      · exact h.conversation.batch response.content [denied] [] fun _ => failedWith _ 0
    · exact h.failStep _ _

theorem accept_spec (h : Asked cfg w l) (streamFailure : Option String) (response : ModelGenerateResponse) :
    Ends (fun next => Ready cfg next ∧ next.modelCalls = l.modelCalls) (Settled cfg)
      (accept cfg w a streamFailure response l) := by
  unfold accept
  rcases a.save .modelResponded with _ | error
  · rcases streamFailure.or a.failure with _ | error
    · dsimp only
      by_cases hrunaway : cfg.isRunaway response.content.text = true
      · rw [if_pos hrunaway]
        exact h.failStep _ _
      rw [if_neg hrunaway]
      rcases hrejection : w.rejection response with _ | error
      · dsimp only
        by_cases hcall : response.stopReason = .toolCall
        · have hw : w.any = false := by
            by_contra hany
            unfold Wrapup.rejection at hrejection
            rw [if_neg hany, if_pos (.inl hcall)] at hrejection
            cases hrejection
          rw [if_pos hcall]
          exact callTools_spec h hw response
        · rw [if_neg hcall]
          exact evaluate_spec h response
      · exact h.failStep _ _
    · exact (h.recordUnexecuted _ _ _ _).failure .streamFailed
  · dsimp only
    rcases a.stop .respondedFailed with _ | cancelled
    · exact (h.recordUnexecuted _ _ _ _).fail
    · exact (h.recordUnexecuted _ _ _ _).finishStopped cancelled

theorem answer_spec (h : Asked cfg w l) :
    Ends (fun next => Ready cfg next ∧ next.modelCalls = l.modelCalls) (Settled cfg) (answer cfg w a l) := by
  unfold answer
  by_cases hstopped : a.streamed.isNone ∨ (a.stop .streamed).isSome
  · rw [if_pos hstopped]
    refine Closed.finishStopped ?_ _
    rcases a.response with _ | response
    · exact h.recordUnfinished _ _
    · exact h.recordUnexecuted _ _ _ _
  · rw [if_neg hstopped]
    rcases a.response with _ | response
    · exact h.failStep _ _
    · exact accept_spec h _ response

/-- **One round**: the run returns, or one more call was made and the loop is ready for the next. -/
theorem round_spec (h : Ready cfg l) :
    Ends (fun next => Ready cfg next ∧ next.modelCalls = l.modelCalls + 1) (Settled cfg) (round cfg a l) := by
  refine Ends.bind (prepare_spec h) fun prepared hprepared => ?_
  refine Ends.bind (request_spec hprepared.1) fun asked hasked => ?_
  have hanswer := @answer_spec φ cfg (wrapupOf cfg prepared) a asked _ hasked.1
  rw [hasked.2, hprepared.2] at hanswer
  exact hanswer

/-- By induction on the rounds that are left: each of them uses up one of the calls that the budgets allow. -/
theorem loop_settles (world : ℕ → Answers) (rounds i : ℕ) (h : Ready cfg l)
    (hrounds : cfg.maxToolIterations + maxEvaluatorRetries < rounds + l.modelCalls) :
    ∃ exit, loop cfg world rounds i l = some exit ∧ Settled cfg exit := by
  induction rounds generalizing i l with
  | zero =>
    have hcalls := h.calls
    have hiterations := h.iterations
    have hretries := h.retries
    omega
  | succ rounds ih =>
    have hround := @round_spec φ cfg (world i) l _ h
    unfold loop
    rcases hresult : round cfg (world i) l with exit | next
    · rw [hresult] at hround
      exact ⟨exit, rfl, hround⟩
    · rw [hresult] at hround
      exact ih (i + 1) hround.1 (by rw [hround.2]; omega)

end

/-- **Every run settles**, whatever the world answers: within one round more than its budgets of tool rounds and revisions it
returns the task it recorded; every tool call in its transcript, and in every request it sent, has one result in its place;
every step it started was finished; and only its last request may be a wrap-up, which has no tools. -/
theorem run_settles [DecidableEq φ] (cfg : Config φ) (world : ℕ → Answers) (agent : Agent) (history : List Entry)
    (input : Content) (hmessages : Paired agent.messages) (hhistory : Paired history) :
    ∃ exit, run cfg world (cfg.maxToolIterations + maxEvaluatorRetries + 1) agent history input = some exit ∧
      Settled cfg exit := by
  refine loop_settles world _ 0 ?_ (Nat.lt_succ_self _)
  exact ⟨hmessages.entry _ rfl rfl, hhistory.entry _ rfl rfl, .nothing, rfl, Nat.zero_le _, Nat.zero_le _⟩

namespace Sample

def config : Config ℕ where
  host := {
    boundedArguments := fun _ => some [], digest := fun name _ text => name.length + text.length
    encodedLength := fun _ => some 0, failureDigest := fun name _ error => name.length + error.length }
  maxToolIterations := defaultToolIterations
  isRunaway := fun _ => false

def text (s : String) : Content := { text := s, attachments := none, metadata := none }

def call : ToolCall := { id := "1", name := "poll", args := .nil }

/-- A model that asks for the same tool in every round, and is told the same error. -/
def answers : Answers where
  stop := fun _ => none
  steered := []
  refreshed := .ok (some ["poll"])
  visible := none
  providers := none
  save := fun _ => none
  streamed := some none
  repetition := false
  response := some { content := text "", toolCalls := some [call], stopReason := .toolCall }
  partialText := ""
  failure := none
  evaluation := .ok .accept
  results := fun _ => (failedWith "unavailable" 0, false)
  budgetFailure := none
  elapsed := 0

def agent : Agent :=
  { messages := [.assistant (text "") [call] [], .tool call (failedWith "unavailable" 0) false], tools := none }

end Sample

theorem run_settles_sample : ∃ exit, run Sample.config (fun _ => Sample.answers) (8 + 2 + 1) Sample.agent []
    (Sample.text "poll it") = some exit ∧ Settled Sample.config exit :=
  run_settles Sample.config _ Sample.agent [] _ (.block .nothing _ rfl [_] rfl) .nothing

end AnimaCore.AgentLoop
