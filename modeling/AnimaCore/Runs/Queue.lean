import AnimaCore.Runs

/-!
# AnimaCore.Runs.Queue — the steers of a run that ends

`agent_runs/queue.rs` and the callers in `state/run_commit.rs`: what becomes of the messages that an owner sent to a run
that was in progress.  Each waits on the record of the run it joined, and then

* the transcript takes it in, and the commit of the run keeps its key (`commit_steers`);
* the run ends without reading it, and it becomes a run of its own (`hand_on_steers`);
* the commit does not stand, the steer waits again and becomes a run to send again (`rollback_run`);
* the daemon restarts, and it becomes a run to send again (`restored`).

`Journal` is the ledger with the records of its last save, and `Op` what may happen to it.  `accepted` lists the steers
that were accepted; nothing reads it.
-/

namespace AnimaCore.Runs

open Lib

/-! ## Leftovers -/

/-- The content of a steer, as far as it is read back: its key, its acceptance time and its input. -/
structure SteerContent where
  clientRequestId : Option String
  acceptedAtMs : Option ℕ
  input : RunInput
  deriving DecidableEq, Repr

/-- `steer_content` of a steer without attachment records. -/
def steerContent (steer : RunSteer) : SteerContent :=
  { clientRequestId := some steer.idempotencyKey, acceptedAtMs := some steer.acceptedAtMs
    input := { text := steer.text, attachmentIds := [], skill := steer.skill } }

/-- `SteerLeftovers`; `stopped` is also set where a stop was saved on the record. -/
structure SteerLeftovers where
  runId : String
  agentId : String
  sessionId : String
  unread : List SteerContent
  taken : List String
  stopped : Bool
  deriving DecidableEq, Repr

/-- The loop of `take_leftover_steers` over the steers that only the record holds. -/
def addLeftover (leftovers : List SteerContent) (steer : RunSteer) : List SteerContent :=
  if leftovers.any fun content => content.clientRequestId == some steer.idempotencyKey then leftovers
  else leftovers ++ [steerContent steer]

/-- `sort_by_key(|content| accepted_at_ms(content).unwrap_or(u64::MAX))`. -/
def sortContents (contents : List SteerContent) : List SteerContent :=
  contents.mergeSort fun a b => decide (a.acceptedAtMs.getD (2 ^ 64 - 1) ≤ b.acceptedAtMs.getD (2 ^ 64 - 1))

/-- The record part of `take_leftover_steers`. -/
def RunRecord.keepTaken (r : RunRecord) (taken : List String) : RunRecord :=
  let kept := r.pendingSteers.filter fun steer => taken.contains steer.idempotencyKey
  ({ r with pendingSteers := kept } : RunRecord).noteSteersRead (kept.map (·.idempotencyKey))

def takeLeftoverSteers (ledger : RunLedger) (runId : String) (unread : List SteerContent) (taken : List String) :
    RunLedger × List SteerContent :=
  match ledger[runId]? with
  | none => (ledger, sortContents unread)
  | some r =>
    let left := r.pendingSteers.filter fun steer => !taken.contains steer.idempotencyKey
    (ledger.insert runId (r.keepTaken taken), sortContents (left.foldl addLeftover unread))

/-- `RunRecord::queued` of a web run, with the input that its caller assigns to it. -/
def RunRecord.queuedWeb (id agentId sessionId : String) (key : Option String) (input : RunInput) (createdAtMs : ℕ) :
    RunRecord :=
  { RunRecord.queuedSteer id agentId sessionId
      { idempotencyKey := "", text := input.text, attachmentIds := input.attachmentIds, skill := input.skill
        acceptedAtMs := createdAtMs } with
    idempotencyKey := key }

/-- The map of `hand_on_steers` from the keys of the steers to their inputs. -/
def bindings (steers : List RunSteer) (key : String) : Option RunInput :=
  (steers.reverse.find? fun steer => steer.idempotencyKey == key).map RunSteer.input

def handedRun (id : String) (left : SteerLeftovers) (bound : List RunSteer) (now : ℕ) (content : SteerContent) :
    RunRecord :=
  RunRecord.queuedWeb id left.agentId left.sessionId content.clientRequestId
    ((content.clientRequestId.bind (bindings bound)).getD content.input) (content.acceptedAtMs.getD now)

/-- The loop of `hand_on_steers`: a run waits while there are open slots, and is to be sent again after a stop or where
the queue is full. -/
def handOnLoop (mk : ℕ → SteerContent → RunRecord) (stopped : Bool) (now : ℕ) :
    ℕ → ℕ → List SteerContent → List RunRecord
  | _, _, [] => []
  | i, openSlots, content :: contents =>
    if stopped then
      (mk i content).finish .interrupted (some stoppedBeforeStart) now ::
        handOnLoop mk stopped now (i + 1) openSlots contents
    else if openSlots = 0 then
      (mk i content).finish .interrupted (some queueFullBeforeStart) now ::
        handOnLoop mk stopped now (i + 1) 0 contents
    else mk i content :: handOnLoop mk stopped now (i + 1) (openSlots - 1) contents

/-- `hand_on_steers`, less the save; `openSlots` is what `waiting_count` leaves of the agent's cap. -/
def handOnSteers (ledger : RunLedger) (agents : List String) (left : SteerLeftovers) (openSlots now : ℕ)
    (fresh : ℕ → String) : RunLedger :=
  match ledger[left.runId]?.filter fun r => r.asyncHelper.isSome with
  | some r => ledger.insert left.runId ((r.noteSteersRead left.taken).archiveHelperSteersExcept left.taken)
  | none =>
    let bound := (ledger[left.runId]?.map RunRecord.pendingSteers).getD []
    let (ledger, steers) := takeLeftoverSteers ledger left.runId left.unread left.taken
    if steers = [] ∨ agents.contains left.agentId = false then ledger
    else
      (handOnLoop (fun i => handedRun (fresh i) left bound now) left.stopped now 0 openSlots steers).foldl
        RunLedger.add ledger

/-! ## Commits -/

def RunRecord.start (r : RunRecord) (now : ℕ) : RunRecord :=
  { r with
    replySha256 := none, terminalPublished := false, status := .running
    startedAtMs := some (max now r.createdAtMs), mirrored := false
    turn := r.turn.map fun turn => { turn with terminal := none } }

def RunLedger.offerSteersOfFailedRun (ledger : RunLedger) (runId : String) (now : ℕ) (fresh : ℕ → String) : RunLedger :=
  match ledger[runId]?.filter fun r => r.status == .failed with
  | none => ledger
  | some r =>
    let (steers, r) := r.steersToSendAgain fresh
    (steers.map fun steer => steer.finish .interrupted (some failedBeforeStart) now).foldl RunLedger.add
      (ledger.insert runId r)

structure RunOutcome where
  status : RunStatus
  error : Option RunError
  replyMessageId : Option String
  replySha256 : Option String
  deriving DecidableEq, Repr

/-- The record part of `commit_run`. -/
def RunRecord.commit (r : RunRecord) (taken : List RunSteer) (outcome : RunOutcome) (now : ℕ) : RunRecord :=
  let r := ({ r with replyMessageId := outcome.replyMessageId } : RunRecord).commitSteers taken
  let r := r.finish outcome.status outcome.error now
  let r := if outcome.status = .completed then { r with replySha256 := outcome.replySha256 } else r
  r.sealTurnTerminal

/-- The record part of `rollback_run`. -/
def RunRecord.rollback (r : RunRecord) (taken : List RunSteer) (error : RunError) (now : ℕ) : RunRecord :=
  (({ r with replyMessageId := none } : RunRecord).revertSteers taken).finish .failed (some error) now

/-- The ledger part of `commit_run`. -/
def RunLedger.commitRun (ledger : RunLedger) (runId : String) (taken : List RunSteer) (outcome : RunOutcome) (now : ℕ)
    (pins : List String) : RunLedger :=
  RunLedger.pruneWithPins (ledger.modify runId fun r => r.commit taken outcome now) now pins

/-- The ledger part of `rollback_run`. -/
def RunLedger.rollbackRun (ledger : RunLedger) (runId : String) (taken : List RunSteer) (error : RunError) (now : ℕ)
    (fresh : ℕ → String) : RunLedger :=
  RunLedger.offerSteersOfFailedRun (ledger.modify runId fun r => r.rollback taken error now) runId now fresh

/-! ## The ledger and its last save -/

/-- The ledger, the records of its last save and the steers that were accepted, each with its agent. -/
structure Journal where
  ledger : RunLedger
  saved : List RunRecord
  accepted : List (String × RunSteer)

inductive Op
  /-- A run is added. -/
  | begin (record : RunRecord)
  /-- A queued run starts. -/
  | start (runId : String) (now : ℕ)
  /-- A steer joins a run; it is accepted once it is saved with it. -/
  | accept (runId : String) (steer : RunSteer)
  /-- The execution of a run ends, and the steers it did not read are handed on. -/
  | handOn (left : SteerLeftovers) (openSlots now : ℕ) (fresh : ℕ → String)
  /-- A run is committed with the steers its transcript took in. -/
  | commit (runId : String) (taken : List RunSteer) (outcome : RunOutcome) (now : ℕ) (pins : List String)
  /-- The commit does not stand. -/
  | rollback (runId : String) (taken : List RunSteer) (error : RunError) (now : ℕ) (fresh : ℕ → String)
  /-- The ledger is saved. -/
  | save
  /-- The daemon starts again from the last save. -/
  | restart (now : ℕ) (pins : List String) (fresh : String → ℕ → String)

def RunLedger.join (ledger : RunLedger) (runId : String) (steer : RunSteer) : RunLedger :=
  ledger.modify runId fun r => { r with pendingSteers := r.pendingSteers ++ [steer] }

/-- One operation; `agents` are the agents that exist. -/
def Journal.step (agents : List String) (j : Journal) : Op → Journal
  | .begin record => { j with ledger := j.ledger.add record }
  | .start runId now => { j with ledger := j.ledger.modify runId fun r => r.start now }
  | .accept runId steer =>
    let ledger := j.ledger.join runId steer
    { ledger, saved := ledger.snapshotRecords agents
      accepted := ((j.ledger[runId]?.map RunRecord.agentId).getD "", steer) :: j.accepted }
  | .handOn left openSlots now fresh => { j with ledger := handOnSteers j.ledger agents left openSlots now fresh }
  | .commit runId taken outcome now pins => { j with ledger := j.ledger.commitRun runId taken outcome now pins }
  | .rollback runId taken error now fresh => { j with ledger := j.ledger.rollbackRun runId taken error now fresh }
  | .save => { j with saved := j.ledger.snapshotRecords agents }
  | .restart now pins fresh => { j with ledger := RunLedger.restoredWithPins fresh j.saved agents now pins }

end AnimaCore.Runs
