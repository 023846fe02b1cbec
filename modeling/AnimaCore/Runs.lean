import AnimaCore.Base
import AnimaCore.Lib.Machine
import AnimaCore.Lib.Table

/-!
# AnimaCore.Runs — the run ledger of the daemon

`runs/ledger.rs`, `runs/async_helper.rs`, `runs/turn.rs`: one record for each run of an agent, kept in the saved state,
with what a restart and the retention do to them.

* `RunRecord` has the fields that the modelled functions read or write; usage, steps, models and queue positions are
  left out.
* A method that changes a record returns the changed one.
* `fresh i` is the identifier of the `i`-th run that a call creates (`run_` and a new UUID in the source).
* The ledger is a table by run identifier; what the source computes from the values of its hash map does not depend on
  their order.
-/

namespace AnimaCore.Runs

open Lib

/-! ## Bounds and texts -/

def terminalRunRetentionMs : ℕ := 24 * 60 * 60 * 1000

def maxTerminalRunsPerAgent : ℕ := 50

def maxRunInputTextBytes : ℕ := 32 * 1024

def maxRunAttachments : ℕ := 10

def maxRecoveryAttempts : ℕ := 3

inductive RunStatus
  | queued
  | running
  | awaitingApproval
  | completed
  | failed
  | cancelled
  | interrupted
  deriving DecidableEq, Repr

def RunStatus.isTerminal : RunStatus → Bool
  | .completed | .failed | .cancelled | .interrupted => true
  | .queued | .running | .awaitingApproval => false

inductive RunSource
  | web
  | api
  | telegram
  | discord
  | email
  | schedule
  | job
  | delegation
  | peer
  deriving DecidableEq, Repr

structure RunInput where
  text : String
  attachmentIds : List String
  skill : Option String
  deriving DecidableEq, Repr

structure RunError where
  code : String
  message : String
  deriving DecidableEq, Repr

/-- The error of a run that had not started when the daemon went down. -/
def restartBeforeStart : RunError :=
  { code := "restart_before_start"
    message := "The daemon restarted before this run started; it is safe to send it again." }

/-- The error of a run that was in progress when the daemon went down. -/
def restartDuringRun : RunError :=
  { code := "restart_during_run"
    message := "The daemon restarted while this run was in progress; tools it started may have had effects." }

/-- The error of a steer that its run never read because it was stopped. -/
def stoppedBeforeStart : RunError :=
  { code := "stopped_before_start"
    message := "The run was stopped before this message reached it; it is safe to send it again." }

/-- The error of a steer that found the queue full. -/
def queueFullBeforeStart : RunError :=
  { code := "queue_full_before_start"
    message :=
      "Eight messages were already waiting when the run this message joined ended; it is safe to send it again." }

/-- The error of a steer that a failed run held. -/
def failedBeforeStart : RunError :=
  { code := "failed_before_start"
    message := "The run this message joined failed before reading it; send it again." }

/-! ## Steers -/

structure RunSteer where
  idempotencyKey : String
  text : String
  attachmentIds : List String
  skill : Option String
  acceptedAtMs : ℕ
  deriving DecidableEq, Repr

def RunSteer.input (s : RunSteer) : RunInput := { text := s.text, attachmentIds := s.attachmentIds, skill := s.skill }

structure SteeredKey where
  idempotencyKey : String
  acceptedAtMs : ℕ
  input : Option RunInput
  deriving DecidableEq, Repr

/-- `sort_by_key(|steer| steer.accepted_at_ms)`, which is stable. -/
def sortSteers (steers : List RunSteer) : List RunSteer :=
  steers.mergeSort fun a b => decide (a.acceptedAtMs ≤ b.acceptedAtMs)

/-! ## Helpers -/

structure HelperLimits where
  maxToolTurns : Option ℕ
  timeoutMs : Option ℕ
  maxOutputTokens : Option ℕ
  deriving DecidableEq, Repr

/-- `HelperOptions`; the output schema is its JSON text. -/
structure HelperOptions where
  route : Option String
  limits : Option HelperLimits
  outputSchema : Option String
  deriving DecidableEq, Repr

structure AsyncHelperBounds where
  maxToolTurns : ℕ
  maxDurationMs : ℕ
  maxOutputTokensPerResponse : ℕ
  maxAcceptedSteers : ℕ
  deriving DecidableEq, Repr

inductive HelperCompletionState
  | manual
  | awaitingResult (reservedRunId : String)
  | awaitingParent (reservedRunId : String)
  | queued (runId : String)
  | settled (runId : String)
  | reviewRequired (reason : String) (runId : Option String)
  | suppressed (reason : String) (runId : Option String)
  deriving DecidableEq, Repr

namespace HelperCompletionState

def runId : HelperCompletionState → Option String
  | .awaitingResult id | .awaitingParent id | .queued id | .settled id => some id
  | .reviewRequired _ id | .suppressed _ id => id
  | .manual => none

def isUnresolved : HelperCompletionState → Bool
  | .awaitingResult _ | .awaitingParent _ | .queued _ => true
  | _ => false

def requireReview (c : HelperCompletionState) (reason : String) : HelperCompletionState :=
  if c.isUnresolved then .reviewRequired reason c.runId else c

end HelperCompletionState

structure AsyncHelper where
  ownerAgentId : String
  ownerSessionId : String
  parentRunId : String
  launchKey : String
  launchFingerprint : String
  options : Option HelperOptions
  effectiveBounds : Option AsyncHelperBounds
  completion : HelperCompletionState
  unconsumedSteers : List RunSteer
  deriving DecidableEq, Repr

structure HelperCompletion where
  helperRunId : String
  launchParentRunId : String
  deriving DecidableEq, Repr

/-- The reason for a review of a helper that did not complete. -/
def notCommitted : String := "Helper did not commit a successful result; no completion was scheduled"

def notReplayed : String := "Daemon restarted before helper completion settled; no work was replayed"

/-- The helper part of `RunRecord::finish`. -/
def AsyncHelper.finished (h : AsyncHelper) (status : RunStatus) (replied : Bool) : AsyncHelper :=
  match h.completion, status, replied with
  | .awaitingResult id, .completed, true => { h with completion := .awaitingParent id }
  | completion, status, _ =>
    if status = .completed then h
    else { h with completion := completion.requireReview notCommitted }

/-! ## Turns and recovery -/

structure TurnBinding where
  rootRunId : String
  attemptRunId : String
  agentId : String
  sessionId : String
  originalInputDigest : String
  attemptInputDigest : String
  workspaceDigest : String
  configDigest : String
  automaticEligible : Bool
  deriving DecidableEq, Repr

inductive TurnPhase
  | beforeModel
  | modelResponded
  | toolsSettled
  deriving DecidableEq, Repr

structure TurnToolIntent where
  callId : String
  name : String
  argumentsDigest : String
  deriving DecidableEq, Repr

/-- `TurnCheckpoint`; of its progress the texts are read. -/
structure TurnCheckpoint where
  binding : TurnBinding
  sequence : ℕ
  phase : TurnPhase
  modelCalls : ℕ
  progress : List String
  pendingTools : List TurnToolIntent
  deriving DecidableEq, Repr

structure TurnTerminal where
  status : RunStatus
  replyMessageId : Option String
  replySha256 : Option String
  deriving DecidableEq, Repr

structure RunTurn where
  binding : TurnBinding
  originalInput : RunInput
  checkpoint : Option TurnCheckpoint
  terminal : Option TurnTerminal
  deriving DecidableEq, Repr

structure RecoveryRecord where
  fingerprint : String
  continuationRunId : String
  reviewedAtMs : ℕ
  deriving DecidableEq, Repr

/-- `ActionReceipt`, as far as `validate_receipts` reads it: `started` is the status `Started`. -/
structure ActionReceipt where
  toolCallId : String
  name : String
  started : Bool
  startedAtMs : ℕ
  finishedAtMs : Option ℕ
  durationMs : Option ℕ
  argumentsPreview : String
  resultPreview : Option String
  resultTruncated : Bool
  deriving DecidableEq, Repr

/-! ## Records -/

structure RunRecord where
  id : String
  agentId : String
  sessionId : String
  source : RunSource
  sourceRef : Option String
  systemFollowup : Option Bool
  status : RunStatus
  idempotencyKey : Option String
  input : RunInput
  editedInput : Option RunInput
  createdAtMs : ℕ
  startedAtMs : Option ℕ
  finishedAtMs : Option ℕ
  error : Option RunError
  actionReceipts : List ActionReceipt
  parentRunId : Option String
  recovery : Option RecoveryRecord
  recoveryOf : Option String
  recoveryAttempt : ℕ
  turn : Option RunTurn
  asyncHelper : Option AsyncHelper
  helperCompletion : Option HelperCompletion
  replyMessageId : Option String
  replySha256 : Option String
  pendingSteers : List RunSteer
  readSteerKeys : List String
  steeredKeys : List SteeredKey
  mirrored : Bool
  terminalPublished : Bool
  deriving DecidableEq, Repr

namespace RunRecord

/-- `RunRecord::queued` of a web run for a steer, with the input that its callers assign to it. -/
def queuedSteer (id agentId sessionId : String) (steer : RunSteer) : RunRecord :=
  { id, agentId, sessionId, source := .web, sourceRef := none, systemFollowup := some false, status := .queued
    idempotencyKey := some steer.idempotencyKey, input := steer.input, editedInput := none
    createdAtMs := steer.acceptedAtMs, startedAtMs := none, finishedAtMs := none, error := none, actionReceipts := []
    parentRunId := none, recovery := none, recoveryOf := none, recoveryAttempt := 0, turn := none, asyncHelper := none
    helperCompletion := none, replyMessageId := none, replySha256 := none, pendingSteers := [], readSteerKeys := []
    steeredKeys := [], mirrored := false, terminalPublished := false }

def effectiveInput (r : RunRecord) : RunInput := r.editedInput.getD r.input

def sealTurnTerminal (r : RunRecord) : RunRecord :=
  let final : TurnTerminal :=
    { status := r.status, replyMessageId := r.replyMessageId, replySha256 := r.replySha256 }
  { r with turn := r.turn.map fun turn => { turn with terminal := if r.status.isTerminal then some final else none } }

def finish (r : RunRecord) (status : RunStatus) (error : Option RunError) (now : ℕ) : RunRecord :=
  let r := { r with replySha256 := none, terminalPublished := false, status, error
                    finishedAtMs := some (max now r.createdAtMs), mirrored := false }
  let r := r.sealTurnTerminal
  { r with asyncHelper := r.asyncHelper.map fun h => h.finished status r.replyMessageId.isSome }

def forgetReadSteers (r : RunRecord) (steers : List RunSteer) : RunRecord :=
  { r with readSteerKeys := r.readSteerKeys.filter fun key => !steers.any fun steer => steer.idempotencyKey == key }

/-- The loop of `commit_steers` over the keys it keeps. -/
def addSteeredKey (keys : List SteeredKey) (steer : RunSteer) : List SteeredKey :=
  if keys.any fun steered => steered.idempotencyKey == steer.idempotencyKey then keys
  else
    keys ++
      [{ idempotencyKey := steer.idempotencyKey, acceptedAtMs := steer.acceptedAtMs, input := some steer.input }]

def commitSteers (r : RunRecord) (taken : List RunSteer) : RunRecord :=
  if taken = [] then r
  else
    let pendingSteers := r.pendingSteers.filter fun pending =>
      !taken.any fun steer => steer.idempotencyKey == pending.idempotencyKey
    let r := { r with pendingSteers }.forgetReadSteers taken
    { r with steeredKeys := taken.foldl addSteeredKey r.steeredKeys }

/-- The loop of `revert_steers` over the steers it gives back. -/
def addPendingSteer (pending : List RunSteer) (steer : RunSteer) : List RunSteer :=
  if pending.any fun p => p.idempotencyKey == steer.idempotencyKey then pending else pending ++ [steer]

def revertSteers (r : RunRecord) (taken : List RunSteer) : RunRecord :=
  if taken = [] then r
  else
    let steeredKeys := r.steeredKeys.filter fun steered =>
      !taken.any fun steer => steer.idempotencyKey == steered.idempotencyKey
    let r := { r with steeredKeys }.forgetReadSteers taken
    { r with pendingSteers := sortSteers (taken.foldl addPendingSteer r.pendingSteers) }

def noteSteersRead (r : RunRecord) (keys : List String) : RunRecord :=
  { r with readSteerKeys :=
      keys.foldl (fun read key => if read.contains key then read else read ++ [key]) r.readSteerKeys }

def isPrunable (r : RunRecord) : Bool := r.status.isTerminal && r.pendingSteers.isEmpty

/-- One round of the loop of `archive_helper_steers_except`: the steers kept, the archive and whether it grew. -/
def archiveSteer (taken : List String) (acc : List RunSteer × List RunSteer × Bool) (steer : RunSteer) :
    List RunSteer × List RunSteer × Bool :=
  let (pending, unconsumed, changed) := acc
  if taken.contains steer.idempotencyKey then (pending ++ [steer], unconsumed, changed)
  else if unconsumed.any fun known => known.idempotencyKey == steer.idempotencyKey then (pending, unconsumed, changed)
  else (pending, unconsumed ++ [steer], true)

def archiveHelperSteersExcept (r : RunRecord) (taken : List String) : RunRecord :=
  match r.asyncHelper with
  | none => r
  | some helper =>
    let (pending, unconsumed, changed) :=
      r.pendingSteers.foldl (archiveSteer taken) ([], helper.unconsumedSteers, false)
    { r with
      asyncHelper := some { helper with unconsumedSteers := sortSteers unconsumed }
      pendingSteers := pending
      readSteerKeys := r.readSteerKeys.filter taken.contains
      mirrored := if changed then false else r.mirrored }

/-- `RunRecord::steers_to_send_again`: a run for each steer the record still holds, and the record without them. -/
def steersToSendAgain (r : RunRecord) (fresh : ℕ → String) : List RunRecord × RunRecord :=
  if r.asyncHelper.isSome then ([], r.archiveHelperSteersExcept [])
  else if r.pendingSteers = [] then ([], r)
  else
    (r.pendingSteers.mapIdx fun i steer => queuedSteer (fresh i) r.agentId r.sessionId steer,
      { r with mirrored := false, readSteerKeys := [], pendingSteers := [] })

def recoverAfterRestart (r : RunRecord) (now : ℕ) : RunRecord :=
  match r.status with
  | .queued => r.finish .interrupted (some restartBeforeStart) now
  | .running | .awaitingApproval => r.finish .interrupted (some restartDuringRun) now
  | _ => r

/-- The end of the loop of `restored_with_pins`: a completion that is not settled needs a review. -/
def reviewAfterRestart (r : RunRecord) : RunRecord :=
  match r.asyncHelper with
  | none => r
  | some helper =>
    { r with
      mirrored := if helper.completion.isUnresolved then false else r.mirrored
      asyncHelper := some { helper with completion := helper.completion.requireReview notReplayed } }

def restarted (r : RunRecord) (fresh : ℕ → String) (now : ℕ) : RunRecord :=
  ((({ r with terminalPublished := false } : RunRecord).steersToSendAgain fresh).2.recoverAfterRestart now
    ).reviewAfterRestart

/-- The runs that its steers become in a restart. -/
def sentAgain (r : RunRecord) (fresh : ℕ → String) (now : ℕ) : List RunRecord :=
  (({ r with terminalPublished := false } : RunRecord).steersToSendAgain fresh).1.map fun steer =>
    steer.recoverAfterRestart now

end RunRecord

/-! ## The ledger -/

abbrev RunLedger := Table String RunRecord

/-- `async_helper::pinned`: the records that unresolved helpers still need. -/
def pinned (records : List RunRecord) : List String :=
  let active := (records.filter fun r => !r.status.isTerminal).map (·.id)
  let pendingEvidence := (records.filter fun r => !r.status.isTerminal || !r.mirrored).map (·.id)
  records.flatMap fun r =>
    match r.asyncHelper with
    | none => []
    | some helper =>
      if helper.completion.isUnresolved || !r.status.isTerminal || active.contains helper.parentRunId ||
          helper.completion.runId.any pendingEvidence.contains then
        r.id :: helper.parentRunId :: helper.completion.runId.toList
      else []

namespace RunLedger

def records (ledger : RunLedger) : List RunRecord := ledger.toList.map Prod.snd

/-- `RunLedger::insert`. -/
def add (ledger : RunLedger) (record : RunRecord) : RunLedger := ledger.insert record.id record

/-- When a record finished, as the retention sees it. -/
def finishedAt (r : RunRecord) : ℕ := r.finishedAtMs.getD r.createdAtMs

/-- The order of the retention: newest first, and by identifier where the times are equal. -/
def newer (a b : RunRecord) : Bool := (compare (finishedAt b, b.id) (finishedAt a, a.id)).isLT

/-- The runs that the retention of an agent looks at. -/
def retained (ledger : RunLedger) (pins : List String) (agentId : String) : List RunRecord :=
  ledger.records.filter fun r => r.agentId == agentId && r.isPrunable && !pins.contains r.id

/-- Whether the retention removes a record: its place in the sorted list is the number of newer ones. -/
def expired (ledger : RunLedger) (now : ℕ) (pins : List String) (r : RunRecord) : Bool :=
  r.isPrunable && !pins.contains r.id && r.mirrored &&
    (decide (maxTerminalRunsPerAgent ≤ (retained ledger pins r.agentId).countP fun other => newer other r) ||
      decide (finishedAt r < now - terminalRunRetentionMs))

def pruneWithPins (ledger : RunLedger) (now : ℕ) (sourcePins : List String) : RunLedger :=
  let pins := pinned ledger.records ++ sourcePins
  ledger.filter fun _ r => !expired ledger now pins r

def snapshotRecords (ledger : RunLedger) (liveAgents : List String) : List RunRecord :=
  (ledger.records.filter fun r => liveAgents.contains r.agentId).mergeSort fun a b =>
    (compare (a.agentId, a.createdAtMs, a.id) (b.agentId, b.createdAtMs, b.id)).isLE

/-- One round of the loop of `restored_with_pins`. -/
def restoreRecord (fresh : String → ℕ → String) (liveAgents : List String) (now : ℕ) (ledger : RunLedger)
    (record : RunRecord) : RunLedger :=
  if liveAgents.contains record.agentId then
    ((record.sentAgain (fresh record.id) now).foldl add ledger).add (record.restarted (fresh record.id) now)
  else ledger

def restoredWithPins (fresh : String → ℕ → String) (records : List RunRecord) (liveAgents : List String) (now : ℕ)
    (pins : List String) : RunLedger :=
  (records.foldl (restoreRecord fresh liveAgents now) ∅).pruneWithPins now pins

end RunLedger

end AnimaCore.Runs
