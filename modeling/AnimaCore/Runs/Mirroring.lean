import AnimaCore.Lib.Sweep
import AnimaCore.Runs.Queue

/-!
# AnimaCore.Runs.Mirroring — the retention loop and the history store

`runs/ledger.rs` and `write_runs` of `history/outbox.rs`: a finished run leaves the ledger once the history store holds it,
and `mirrored` is the flag that says so.

* `pruneLoop`: `prune_with_pins` with its groups, its sort and its loop.
* `unmirroredTerminal` and `markMirrored`: what a flush reads, and what it does once the store has taken the copies.
* `Mirror` is the ledger with its last save, the batches of the flushes that are under way and what the store was given;
  `Event` is what may happen to it, in any order.

A flush reads under the control-plane transaction and marks without it.  The writers of the ledger hold the transaction up to
the save and put back what they changed if it fails (`attempt`, `revert`; `remove`, `putBack`).  `Copy` adds to a record the
fields that `RunRecord` leaves out, which are compared and written with the others.
-/

namespace AnimaCore.Runs

open Lib

/-! ## The retention loop -/

structure RankedRun where
  finishedAtMs : ℕ
  runId : String
  mirrored : Bool
  deriving DecidableEq, Repr

def RankedRun.newestFirst (left right : RankedRun) : Ordering :=
  compare (right.finishedAtMs, right.runId) (left.finishedAtMs, left.runId)

namespace RunLedger

def ranked (r : RunRecord) : RankedRun := { finishedAtMs := finishedAt r, runId := r.id, mirrored := r.mirrored }

/-- `terminal.entry(record.agent_id.as_str()).or_default().push(..)`. -/
def pushRanked (terminal : Table String (List RankedRun)) (r : RunRecord) : Table String (List RankedRun) :=
  terminal.insert r.agentId (terminal[r.agentId]?.getD [] ++ [ranked r])

/-- The runs that the retention looks at, by agent. -/
def rankedByAgent (records : List RunRecord) (pins : List String) : Table String (List RankedRun) :=
  (records.filter fun r => r.isPrunable && !pins.contains r.id).foldl pushRanked ∅

def expiredRuns (now : ℕ) (runs : List RankedRun) : List String :=
  let sorted := runs.mergeSort fun left right => (RankedRun.newestFirst left right).isLE
  let leaving := sorted.zipIdx.filter fun (run, index) =>
    run.mirrored && (decide (maxTerminalRunsPerAgent ≤ index) || decide (run.finishedAtMs < now - terminalRunRetentionMs))
  leaving.map fun (run, _) => run.runId

/-- `RunLedger::prune_with_pins`. -/
def pruneLoop (ledger : RunLedger) (now : ℕ) (sourcePins : List String) : RunLedger :=
  let terminal := rankedByAgent ledger.records (pinned ledger.records ++ sourcePins)
  Table.eraseAll ledger (terminal.toList.flatMap fun (_, runs) => expiredRuns now runs)

/-! ## What a flush reads and marks -/

/-- The comparator of `unmirrored_terminal`. -/
def oldestFirst (left right : RunRecord) : Ordering :=
  compare (left.finishedAtMs, left.id) (right.finishedAtMs, right.id)

def unmirroredTerminal (ledger : RunLedger) (liveAgents : List String) (limit : ℕ) : List RunRecord :=
  let pending := ledger.records.filter fun r => r.status.isTerminal && !r.mirrored && liveAgents.contains r.agentId
  (pending.mergeSort fun left right => (oldestFirst left right).isLE).take limit

end RunLedger

/-- A clone of a record: its modelled fields and the others. -/
abbrev Copy (ρ : Type) := RunRecord × ρ

section

variable {ρ : Type} [DecidableEq ρ]

/-- One round of the loop of `mark_mirrored`; `rest` has the other fields of the current records. -/
def RunLedger.markOne (rest : String → ρ) (acc : RunLedger × ℕ) (run : Copy ρ) : RunLedger × ℕ :=
  match acc.1[run.1.id]? with
  | none => acc
  | some current =>
    if !current.mirrored && decide ((current, rest run.1.id) = run) then
      (acc.1.insert run.1.id { current with mirrored := true }, acc.2 + 1)
    else acc

def RunLedger.markMirrored (ledger : RunLedger) (rest : String → ρ) (written : List (Copy ρ)) : RunLedger × ℕ :=
  written.foldl (RunLedger.markOne rest) (ledger, 0)

end

/-! ## The writers of the ledger -/

/-- What a writer assigns to a record, where `finish` and the functions over steers do not: the edit of an input, receipts, a
recovery, a turn, a reply, the completion and the bounds of a helper.  What a writer is not about gets its old value. -/
structure Edit where
  editedInput : Option RunInput
  actionReceipts : List ActionReceipt
  recovery : Option RecoveryRecord
  turn : Option RunTurn
  replyMessageId : Option String
  completion : HelperCompletionState
  effectiveBounds : Option AsyncHelperBounds
  deriving DecidableEq, Repr

namespace RunRecord

def assign (r : RunRecord) (e : Edit) : RunRecord :=
  { r with
    editedInput := e.editedInput, actionReceipts := e.actionReceipts, recovery := e.recovery, turn := e.turn
    replyMessageId := e.replyMessageId
    asyncHelper := r.asyncHelper.map fun h => { h with completion := e.completion, effectiveBounds := e.effectiveBounds } }

/-- The assignments that are undone if the save fails: the claim of a recovery, and what a stop does to a helper. -/
def claim (r : RunRecord) (recovery : Option RecoveryRecord) (completion : HelperCompletionState) : RunRecord :=
  { r with recovery, asyncHelper := r.asyncHelper.map fun h => { h with completion }, mirrored := false }

/-- The undo of `claim`, on the record as it is then. -/
def setBack (r old : RunRecord) : RunRecord :=
  { r with recovery := old.recovery, asyncHelper := old.asyncHelper, mirrored := old.mirrored }

end RunRecord

/-! ## The ledger, its copies and the store -/

/-- The ledger with its last save, the batches that flushes hold, and what the store was given, which nothing reads.
`attempts` and `removed` are what a writer needs to undo its changes. -/
structure Mirror (ρ : Type) where
  journal : Journal
  rest : String → ρ
  savedRest : String → ρ
  reads : List (List (Copy ρ))
  writes : List (List (Copy ρ))
  given : List (Copy ρ)
  attempts : List (Copy ρ)
  removed : List (Copy ρ)

/-- What happens to the ledger and its copies; `rest` is the other fields of the record after a change. -/
inductive Event (ρ : Type)
  /-- A change of `Runs.Queue`, a save or a restart. -/
  | op (op : Op)
  /-- A run ends: it is cancelled, it fails, or it is abandoned. -/
  | finish (runId : String) (status : RunStatus) (error : Option RunError) (now : ℕ) (rest : ρ)
  /-- The steers of a failed run are offered again. -/
  | offer (runId : String) (now : ℕ) (fresh : ℕ → String)
  /-- A steer could not be saved and leaves its run. -/
  | refuse (runId key : String)
  /-- A writer changes a record and clears its flag. -/
  | edit (runId : String) (edit : Edit) (rest : ρ)
  /-- A writer changes a run that is in flight. -/
  | adjust (runId : String) (status : RunStatus) (edit : Edit) (rest : ρ)
  /-- The terminal event of a run is out. -/
  | publish (runId : String) (finished : RunStatus)
  /-- A recovery is claimed, or a helper is stopped, up to the save. -/
  | attempt (runId : String) (recovery : Option RecoveryRecord) (completion : HelperCompletionState) (rest : ρ)
  /-- The save failed. -/
  | revert
  /-- The save succeeded. -/
  | keep
  /-- Runs are removed. -/
  | remove (runIds : List String)
  /-- The save of a removal failed. -/
  | putBack
  /-- The retention. -/
  | prune (now : ℕ) (pins : List String)
  /-- A flush reads a batch. -/
  | read (liveAgents : List String) (limit : ℕ)
  /-- The store takes a batch that was read. -/
  | write (batch : List (Copy ρ))
  /-- A flush marks a batch that the store took. -/
  | mark (batch : List (Copy ρ))

namespace Mirror

variable {ρ : Type}

def ledger (s : Mirror ρ) : RunLedger := s.journal.ledger

def withLedger (s : Mirror ρ) (ledger : RunLedger) : Mirror ρ := { s with journal := { s.journal with ledger } }

def change (s : Mirror ρ) (runId : String) (f : RunRecord → RunRecord) : Mirror ρ :=
  s.withLedger (s.ledger.modify runId f)

def setRest (s : Mirror ρ) (runId : String) (rest : ρ) : Mirror ρ := { s with rest := Function.update s.rest runId rest }

def copies (s : Mirror ρ) (records : List RunRecord) : List (Copy ρ) := records.map fun r => (r, s.rest r.id)

def revertOne (s : Mirror ρ) (old : Copy ρ) : Mirror ρ :=
  (s.change old.1.id fun r => r.setBack old.1).setRest old.1.id old.2

def putBackOne (s : Mirror ρ) (old : Copy ρ) : Mirror ρ := (s.withLedger (s.ledger.add old.1)).setRest old.1.id old.2

section

variable [DecidableEq ρ]

/-- What one event does; `agents` are the agents that exist. -/
def step (agents : List String) (s : Mirror ρ) : Event ρ → Mirror ρ
  | .op .save => { s with journal := s.journal.step agents .save, savedRest := s.rest }
  | .op (.accept runId steer) => { s with journal := s.journal.step agents (.accept runId steer), savedRest := s.rest }
  | .op (.restart now pins fresh) =>
    -- the batches and the undo of a process end with it
    { s with
      journal := s.journal.step agents (.restart now pins fresh), rest := s.savedRest
      reads := [], writes := [], attempts := [], removed := [] }
  | .op op => { s with journal := s.journal.step agents op }
  | .finish runId status error now rest => (s.change runId fun r => r.finish status error now).setRest runId rest
  | .offer runId now fresh => s.withLedger (s.ledger.offerSteersOfFailedRun runId now fresh)
  | .refuse runId key =>
    s.change runId fun r => { r with pendingSteers := r.pendingSteers.filter fun steer => steer.idempotencyKey != key }
  | .edit runId edit rest => (s.change runId fun r => { r.assign edit with mirrored := false }).setRest runId rest
  | .adjust runId status edit rest => (s.change runId fun r => { r.assign edit with status }).setRest runId rest
  | .publish runId finished =>
    s.change runId fun r => { r with terminalPublished := r.status.isTerminal && decide (r.status = finished) }
  | .attempt runId recovery completion rest =>
    match s.ledger[runId]? with
    | none => s
    | some r =>
      { (s.change runId fun r => r.claim recovery completion).setRest runId rest with
        attempts := s.attempts ++ [(r, s.rest runId)] }
  | .revert => { s.attempts.foldl revertOne s with attempts := [] }
  | .keep => { s with attempts := [] }
  | .remove runIds =>
    { s.withLedger (Table.eraseAll s.ledger runIds) with
      removed := s.copies (runIds.filterMap fun id => s.ledger[id]?) }
  | .putBack => { s.removed.foldl putBackOne s with removed := [] }
  | .prune now pins => s.withLedger (s.ledger.pruneLoop now pins)
  | .read liveAgents limit => { s with reads := s.copies (s.ledger.unmirroredTerminal liveAgents limit) :: s.reads }
  | .write batch => if batch ∈ s.reads then { s with writes := batch :: s.writes, given := batch ++ s.given } else s
  | .mark batch =>
    if batch ∈ s.writes then s.withLedger (s.ledger.markMirrored s.rest batch).1 else s

def init (rest : String → ρ) : Mirror ρ :=
  { journal := { ledger := ∅, saved := [], accepted := [] }, rest, savedRest := rest, reads := [], writes := [], given := []
    attempts := [], removed := [] }

/-- What the callers of the changes ensure: a new record is not mirrored and a new helper has no archive, a steer joins a run
in flight with a key that the helper does not have, the changes that leave the flag alone are of runs in flight, and a change
needs the control-plane transaction, which an attempt holds up to its end. -/
def Permitted (s : Mirror ρ) : Event ρ → Prop
  | .op (.begin record) =>
    s.attempts = [] ∧ record.mirrored = false ∧ ∀ h, record.asyncHelper = some h → h.unconsumedSteers = []
  | .op (.accept runId steer) =>
    s.attempts = [] ∧ ∀ r, s.ledger[runId]? = some r → r.status.isTerminal = false ∧
      ∀ h, r.asyncHelper = some h → ∀ known ∈ h.unconsumedSteers, known.idempotencyKey ≠ steer.idempotencyKey
  | .op (.handOn left _ _ _) => s.attempts = [] ∧ ∀ r, s.ledger[left.runId]? = some r → r.status.isTerminal = false
  | .op .save | .op (.restart ..) => True
  | .op _ => s.attempts = []
  | .refuse runId _ => s.attempts = [] ∧ ∀ r, s.ledger[runId]? = some r → r.status.isTerminal = false
  | .adjust runId status _ _ =>
    s.attempts = [] ∧ status.isTerminal = false ∧ ∀ r, s.ledger[runId]? = some r → r.status.isTerminal = false
  | .finish .. | .offer .. | .edit .. | .remove _ | .putBack | .prune .. => s.attempts = []
  | .attempt .. | .revert | .keep | .publish .. | .read .. | .write _ | .mark _ => True

end

end Mirror

end AnimaCore.Runs
