import AnimaCore.ExecutionLimits
import AnimaCore.Lib.Weighted

/-!
# AnimaCore.Live.Registry — the runs in flight

`live/registry.rs`: what a stream that joins a run midway needs (the current step, its text so far, the tool cards) and what the
run record takes over at the end (the usage of each model call, the tools started).

* A text is the list of its characters; `byteLen` is its length in UTF-8, `utf16Len` in UTF-16 units.
* A slice at a byte that is not a character boundary panics, and so does a subtraction below zero: both are `none`.
* The functions on one run are those of `LiveRunState`; the registry applies them to the run, if it is registered.
* The run's control and tool scope are left out: no function here reads them.  The lock makes each call one step.
* Counters of units and milliseconds are natural numbers.
-/

namespace AnimaCore.Live

open Lib

/-! ## Bounds and texts -/

def maxSnapshotTextBytes : ℕ := 64 * 1024

def maxLiveToolCards : ℕ := 50

def maxRunSteps : ℕ := 50

def maxRunToolsStarted : ℕ := 50

abbrev Text := List Char

/-- `str::len`. -/
def byteLen (text : Text) : ℕ := weight Char.utf8Size text

/-- `char::len_utf16`. -/
def utf16Size (c : Char) : ℕ := if c.toNat ≤ 0xFFFF then 1 else 2

def utf16Len (text : Text) : ℕ := weight utf16Size text

/-- `(&text[..cut], &text[cut..])`. -/
def slices (text : Text) (cut : ℕ) : Option (Text × Text) := cutAt Char.utf8Size text cut

def tailCut (text : Text) : ℕ :=
  if byteLen text < maxSnapshotTextBytes then 0
  else
    -- the end of the text is a boundary, `MAX_SNAPSHOT_TEXT_BYTES` after the excess
    nextBoundary Char.utf8Size text maxSnapshotTextBytes (byteLen text - maxSnapshotTextBytes)

/-- `a - b`. -/
def checkedSub (a b : ℕ) : Option ℕ := if b ≤ a then some (a - b) else none

/-! ## One run -/

structure WebSource where
  title : String
  url : String
  deriving DecidableEq, Repr

structure LiveToolView where
  stepId : String
  toolCallId : String
  name : String
  argumentsPreview : String
  argumentsTruncated : Bool
  status : String
  durationMs : Option ℕ
  resultPreview : Option String
  truncated : Bool
  sources : List WebSource
  deriving DecidableEq, Repr

structure LiveRunView where
  stepId : Option String := none
  text : Text := []
  textOffset : ℕ := 0
  tools : List LiveToolView := []
  deriving DecidableEq, Repr

structure ServedStep where
  stepId : String
  provider : String
  model : String
  reason : String
  deriving DecidableEq, Repr

structure RunStepUsage where
  stepId : String
  usage : TokenUsage
  atMs : ℕ
  durationMs : ℕ
  provider : Option String
  model : Option String
  fallbackReason : Option String
  deriving DecidableEq, Repr

structure LiveRunState where
  view : LiveRunView := {}
  textUnits : ℕ := 0
  steps : List RunStepUsage := []
  served : Option ServedStep := none
  stepStarted : Option (String × ℕ) := none
  toolsStarted : List String := []
  deriving DecidableEq, Repr

/-- The cards with a new one; a card of the same step and call is replaced, and the oldest beyond the bound goes. -/
def putCard (tools : List LiveToolView) (tool : LiveToolView) : List LiveToolView :=
  let tools := tools.filter (fun known => known.stepId != tool.stepId || known.toolCallId != tool.toolCallId) ++ [tool]
  if maxLiveToolCards < tools.length then tools.drop (tools.length - maxLiveToolCards) else tools

/-- The first card of the step and the call, changed. -/
def modifyCard (tools : List LiveToolView) (stepId toolCallId : String) (f : LiveToolView → LiveToolView) :
    List LiveToolView :=
  tools.modify (tools.findIdx fun tool => tool.stepId == stepId && tool.toolCallId == toolCallId) f

/-- What `tool_finished` writes to a card. -/
def LiveToolView.finish (tool : LiveToolView) (status : String) (durationMs : ℕ) (resultPreview : String) (truncated : Bool) :
    LiveToolView :=
  { tool with status, durationMs := some durationMs, resultPreview := some resultPreview, truncated, sources := [] }

/-- What `tool_sources` writes to a card. -/
def LiveToolView.setSources (tool : LiveToolView) (sources : List WebSource) : LiveToolView :=
  if tool.name = "web_search" ∧ tool.status = "success" then { tool with sources } else tool

namespace LiveRunState

def snapshot (run : LiveRunState) : Option LiveRunView := do
  let (cut, text) ← slices run.view.text (tailCut run.view.text)
  some { run.view with text, textOffset := run.view.textOffset + utf16Len cut }

def startStepAt (run : LiveRunState) (stepId : String) (nowMs : ℕ) : LiveRunState :=
  { run with
    stepStarted := some (stepId, nowMs)
    view := { run.view with stepId := some stepId, text := [], textOffset := 0 }
    textUnits := 0 }

def trim (run : LiveRunState) : Option LiveRunState := do
  let (cut, text) ← slices run.view.text (tailCut run.view.text)
  let dropped := utf16Len cut
  let textUnits ← checkedSub run.textUnits dropped
  some { run with view := { run.view with text, textOffset := run.view.textOffset + dropped }, textUnits }

/-- The run with the text appended, and the text's offset. -/
def appendText (run : LiveRunState) (text : Text) : Option (LiveRunState × ℕ) := do
  let offset := run.view.textOffset + run.textUnits
  let run := { run with
    view := { run.view with text := run.view.text ++ text }
    textUnits := run.textUnits + utf16Len text }
  -- only once past twice the cap, so that an append does not move every byte kept
  let run ← if 2 * maxSnapshotTextBytes < byteLen run.view.text then run.trim else some run
  some (run, offset)

def toolStarted (run : LiveRunState) (tool : LiveToolView) : LiveRunState :=
  { run with
    toolsStarted :=
      if run.toolsStarted.length < maxRunToolsStarted ∧ tool.name ∉ run.toolsStarted then run.toolsStarted ++ [tool.name]
      else run.toolsStarted
    view := { run.view with tools := putCard run.view.tools tool } }

def modifyCard (run : LiveRunState) (stepId toolCallId : String) (f : LiveToolView → LiveToolView) : LiveRunState :=
  { run with view := { run.view with tools := Live.modifyCard run.view.tools stepId toolCallId f } }

def noteServed (run : LiveRunState) (served : ServedStep) : LiveRunState := { run with served := some served }

/-- Keeps one model call's usage, of the first `MAX_RUN_STEPS`. -/
def recordStepUsageAt (run : LiveRunState) (stepId : String) (usage : TokenUsage) (nowMs : ℕ) : LiveRunState :=
  if run.steps.length < maxRunSteps then
    let durationMs := ((run.stepStarted.filter fun started => started.1 == stepId).map fun started => nowMs - started.2).getD 0
    let served := run.served.filter fun served => served.stepId == stepId
    { run with
      served := none
      steps := run.steps ++ [{ stepId, usage, atMs := nowMs, durationMs, provider := served.map ServedStep.provider,
                               model := served.map ServedStep.model, fallbackReason := served.map ServedStep.reason }] }
  else run

end LiveRunState

/-! ## The registry -/

abbrev LiveRuns := Table String LiveRunState

inductive Call
  | register (runId : String)
  | remove (runId : String)
  | view (runId : String)
  | startStepAt (runId stepId : String) (nowMs : ℕ)
  | appendText (runId : String) (text : Text)
  | toolStarted (runId : String) (tool : LiveToolView)
  | toolFinished (runId stepId toolCallId status : String) (durationMs : ℕ) (resultPreview : String) (truncated : Bool)
  | toolSources (runId stepId callId : String) (sources : List WebSource)
  | noteServed (runId : String) (served : ServedStep)
  | recordStepUsageAt (runId stepId : String) (usage : TokenUsage) (nowMs : ℕ)
  deriving DecidableEq, Repr

inductive Reply
  | done
  | removed (known : Bool)
  | view (view : Option LiveRunView)
  | offset (offset : Option ℕ)
  deriving DecidableEq, Repr

namespace LiveRuns

def register (runs : LiveRuns) (runId : String) : LiveRuns := if runId ∈ runs then runs else runs.insert runId {}

/-- `none`: the call panics. -/
def view (runs : LiveRuns) (runId : String) : Option (Option LiveRunView) :=
  match runs[runId]? with
  | none => some none
  | some run => run.snapshot.map some

/-- `none`: the call panics. -/
def appendText (runs : LiveRuns) (runId : String) (text : Text) : Option (LiveRuns × Option ℕ) :=
  match runs[runId]? with
  | none => some (runs, none)
  | some run => (run.appendText text).map fun (run, offset) => (runs.insert runId run, some offset)

def steps (runs : LiveRuns) (runId : String) : List RunStepUsage := (runs[runId]?.map LiveRunState.steps).getD []

def toolsStarted (runs : LiveRuns) (runId : String) : List String := (runs[runId]?.map LiveRunState.toolsStarted).getD []

def serve (runs : LiveRuns) : Call → Option (LiveRuns × Reply)
  | .register runId => some (runs.register runId, .done)
  | .remove runId => some (runs.erase runId, .removed (decide (runId ∈ runs)))
  | .view runId => (runs.view runId).map fun view => (runs, .view view)
  | .startStepAt runId stepId nowMs => some (runs.modify runId (·.startStepAt stepId nowMs), .done)
  | .appendText runId text => (runs.appendText runId text).map fun (runs, offset) => (runs, .offset offset)
  | .toolStarted runId tool => some (runs.modify runId (·.toolStarted tool), .done)
  | .toolFinished runId stepId toolCallId status durationMs resultPreview truncated =>
    some (runs.modify runId (·.modifyCard stepId toolCallId (·.finish status durationMs resultPreview truncated)), .done)
  | .toolSources runId stepId callId sources =>
    some (runs.modify runId (·.modifyCard stepId callId (·.setSources sources)), .done)
  | .noteServed runId served => some (runs.modify runId (·.noteServed served), .done)
  | .recordStepUsageAt runId stepId usage nowMs =>
    some (runs.modify runId (·.recordStepUsageAt stepId usage nowMs), .done)

def serveAll (runs : LiveRuns) : List Call → Option (LiveRuns × List Reply)
  | [] => some (runs, [])
  | call :: calls => do
    let (runs, reply) ← runs.serve call
    let (runs, replies) ← serveAll runs calls
    some (runs, reply :: replies)

end LiveRuns

end AnimaCore.Live
