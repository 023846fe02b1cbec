import AnimaCore.Execution.Replay

/-!
# AnimaCore.Execution.Reads — the reading operations of the in-memory store

`load_authoritative_policy`, `load_authoritative_grant`, `load_run`, `load_checkpoint`, `load_steps_page`,
`load_attempts_page` and `load_durable_result` of `execution/memory_store.rs`.  Steps and attempts are read through
their order table, from the last sequence already read up to the snapshot that the first page fixed.

`ReadOp` is one read with its arguments and `read` runs it.
-/

namespace AnimaCore

open Lib

/-! ## Single records -/

def loadAuthoritativePolicy (ownerId : Uuid) (agentDefinitionId : String) (agentDefinitionVersion : ℕ) (state : State) :
    StoreResult (Option AuthoritativePolicyState) :=
  .ok state.authoritativePolicies[(ownerId, agentDefinitionId, agentDefinitionVersion)]?

def loadAuthoritativeGrant (ownerId : Uuid) (authorityKey : GrantAuthorityKey) (state : State) :
    StoreResult (Option AuthoritativeGrantState) :=
  .ok state.authoritativeGrants[(ownerId, authorityKey.asStr)]?

def loadRun (ownerId runId : Uuid) (state : State) : StoreResult (Option StoredRun) :=
  .ok (state.runs[(ownerId, runId)]?.map (·.stored))

def loadCheckpoint (ownerId runId : Uuid) (state : State) : StoreResult (Option (ℕ × CheckpointV1)) := do
  let aggregate ← okOr state.runs[(ownerId, runId)]? .notFound
  return aggregate.checkpoint.map fun checkpoint => (aggregate.checkpointVersion, checkpoint)

def loadDurableResult (ownerId runId logicalInvocationId : Uuid) (state : State) :
    StoreResult (Option DurableCapabilityResult) := do
  let aggregate ← okOr state.runs[(ownerId, runId)]? .notFound
  return aggregate.results[logicalInvocationId]?.map (·.result)

/-! ## Pages of steps and attempts -/

structure StoreHistoryPage (α : Type) where
  items : List α
  nextCursor : Option StoreReadCursor
  deriving DecidableEq

def StoreHistoryPage.new {α : Type} (items : List α) (nextCursor : Option StoreReadCursor) :
    StoreResult (StoreHistoryPage α) :=
  if maxStoreReadPageSize < items.length ∨ (items.isEmpty ∧ nextCursor.isSome) then .error .boundsExceeded
  else .ok { items, nextCursor }

section Order

variable {κ : Type}

/-- The sequence of `last_key_value`, zero in an empty order. -/
def lastSequence (order : Table ℕ κ) : ℕ := order.keys.getLast?.getD 0

/-- The entries of `range((Excluded(last), Included(snapshot)))`. -/
def orderRange (order : Table ℕ κ) (last snapshot : ℕ) : List (ℕ × κ) :=
  order.toList.filter fun entry => decide (last < entry.1) && decide (entry.1 ≤ snapshot)

end Order

/-- The cursor behind a page that ends at `last`, if there is more to read. -/
def nextHistoryCursor (digests : Digests) (cursorKey : BitVec 128) (ownerId runId : Uuid)
    (collection : HistoryCollection) (snapshot : ℕ) (last : Option ℕ) (hasMore : Bool) :
    StoreResult (Option StoreReadCursor) :=
  if hasMore then do
    let last ← okOr last .historyConflict
    let cursor ← writeCursor digests cursorKey { ownerId, runId, collection, snapshot, last }
    return some cursor
  else .ok none

/-- `load_steps_page`: one step past the page is looked up too, and the page's last sequence is read again. -/
def loadStepsPage (digests : Digests) (cursorKey : BitVec 128) (ownerId runId : Uuid) (page : StoreReadPage)
    (state : State) : StoreResult (StoreHistoryPage Step) := do
  let aggregate ← okOr state.runs[(ownerId, runId)]? .notFound
  let (snapshot, last) ← readWindow digests cursorKey ownerId runId .steps (lastSequence aggregate.stepOrder) page
  let window := orderRange aggregate.stepOrder last snapshot
  let taken ← (window.take (page.limit + 1)).mapM fun entry => okOr aggregate.steps[entry.2]? .historyConflict
  let hasMore := decide (page.limit < taken.length)
  let items := if hasMore then taken.dropLast else taken
  let nextCursor ← nextHistoryCursor digests cursorKey ownerId runId .steps snapshot
    (window[items.length - 1]?.map (·.1)) hasMore
  StoreHistoryPage.new items nextCursor

/-- `load_attempts_page`: the entries of the page are cut first and looked up after. -/
def loadAttemptsPage (digests : Digests) (cursorKey : BitVec 128) (ownerId runId : Uuid) (page : StoreReadPage)
    (state : State) : StoreResult (StoreHistoryPage InvocationAttemptRecord) := do
  let aggregate ← okOr state.runs[(ownerId, runId)]? .notFound
  let (snapshot, last) ← readWindow digests cursorKey ownerId runId .attempts (lastSequence aggregate.attemptOrder) page
  let taken := (orderRange aggregate.attemptOrder last snapshot).take (page.limit + 1)
  let hasMore := decide (page.limit < taken.length)
  let entries := if hasMore then taken.dropLast else taken
  let nextCursor ← nextHistoryCursor digests cursorKey ownerId runId .attempts snapshot
    (entries.getLast?.map (·.1)) hasMore
  let items ← entries.mapM fun entry => okOr aggregate.attempts[entry.2]? .historyConflict
  StoreHistoryPage.new items nextCursor

/-! ## Reads -/

inductive ReadOp
  | policy (agentDefinitionId : String) (agentDefinitionVersion : ℕ)
  | grant (authorityKey : GrantAuthorityKey)
  | run (runId : Uuid)
  | checkpoint (runId : Uuid)
  | steps (runId : Uuid) (page : StoreReadPage)
  | attempts (runId : Uuid) (page : StoreReadPage)
  | durableResult (runId logicalInvocationId : Uuid)
  | events (runId : Uuid) (page : StoreReadPage)

inductive ReadReply
  | policy (state : Option AuthoritativePolicyState)
  | grant (state : Option AuthoritativeGrantState)
  | run (stored : Option StoredRun)
  | checkpoint (checkpoint : Option (ℕ × CheckpointV1))
  | steps (page : StoreHistoryPage Step)
  | attempts (page : StoreHistoryPage InvocationAttemptRecord)
  | durableResult (result : Option DurableCapabilityResult)
  | events (page : EventReplayPage)

def read (digests : Digests) (cursorKey : BitVec 128) (ownerId : Uuid) (op : ReadOp) (state : State) :
    StoreResult ReadReply :=
  match op with
  | .policy id version => (loadAuthoritativePolicy ownerId id version state).map .policy
  | .grant key => (loadAuthoritativeGrant ownerId key state).map .grant
  | .run runId => (loadRun ownerId runId state).map .run
  | .checkpoint runId => (loadCheckpoint ownerId runId state).map .checkpoint
  | .steps runId page => (loadStepsPage digests cursorKey ownerId runId page state).map .steps
  | .attempts runId page => (loadAttemptsPage digests cursorKey ownerId runId page state).map .attempts
  | .durableResult runId id => (loadDurableResult ownerId runId id state).map .durableResult
  | .events runId page => (replayEvents digests cursorKey ownerId runId page state).map .events

end AnimaCore
