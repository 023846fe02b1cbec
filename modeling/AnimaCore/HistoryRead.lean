import AnimaCore.HotTail
import AnimaCore.Lib.Nearest

/-!
# AnimaCore.HistoryRead — a window of a conversation

`sessions/history_read.rs`, with the parts of `history/mod.rs` and `history/memory.rs` it reads: an agent reads the messages around
one message of a session of its own.  The hot transcript and two pages of the history store are merged by message id, cut again to
what was asked for, and checked against the state a second time.

* `validId`, `allowed`, `rowAllowed`: what an agent may read.
* `HistoryStore`: the three methods of a store that a window needs, `none` for a failure.  `MemoryHistoryStore` is one.
* `windowInner`: `state` is the state of the first look and `live` that of the second.

The deadline of the read is left out.
-/

namespace AnimaCore.HistoryRead

open Lib
open RunDelta (Message MessageRole DataFields DataValue)
open HotTail (SessionRecord SessionKind MessageOrder messageOrder hiddenMessageIds dataGet)

/-! ## What is read -/

structure AgentSettings where
  additional : DataFields

structure AgentConfig where
  settings : Option AgentSettings

structure AgentRuntime where
  config : AgentConfig
  messages : List Message

structure HistoryDeletion where
  agentId : String
  sessionId : Option String

structure DaemonState where
  agents : Table String AgentRuntime
  sessions : Table (String × String) SessionRecord
  pendingHistoryDeletions : List HistoryDeletion

structure HistoryMessage where
  agentId : String
  sessionId : String
  hidden : Bool
  message : Message
  deriving DecidableEq

def HistoryMessage.order (row : HistoryMessage) : MessageOrder := messageOrder row.message

structure MessagePageQuery where
  agentId : String
  sessionId : String
  before : Option MessageOrder
  limit : ℕ
  includeHidden : Bool

structure MessageAfterQuery where
  agentId : String
  sessionId : String
  after : MessageOrder
  limit : ℕ
  includeHidden : Bool

structure HistoryStore where
  getMessage : String → String → String → Option (Option HistoryMessage)
  pageMessages : MessagePageQuery → Option (List HistoryMessage)
  pageMessagesAfter : MessageAfterQuery → Option (List HistoryMessage)

inductive HistoryReadError
  | invalidRequest
  | unavailable
  | scopeLimit
  deriving DecidableEq, Repr

structure WindowRequest where
  sessionId : String
  anchorMessageId : String
  beforeCount : ℕ
  afterCount : ℕ

structure ConversationWindow where
  sessionId : String
  anchorMessageId : String
  messages : List Message
  hasEarlier : Bool
  hasLater : Bool
  omitted : Bool
  deriving DecidableEq

/-- `SessionRecord::room_id`. -/
def roomOf (record : SessionRecord) : String := record.roomId.getD record.id

/-! ## What may be read -/

def isSmugglingCharacter (c : Char) : Bool :=
  let n := c.toNat
  (0xE0000 ≤ n && n ≤ 0xE007F) || (0x202A ≤ n && n ≤ 0x202E) || (0x2066 ≤ n && n ≤ 0x2069) || (0xE0100 ≤ n && n ≤ 0xE01EF)

def hasHiddenText (text : String) : Bool := text.toList.any isSmugglingCharacter

/-- `valid_id`; `bounded_history_id` is the same. -/
def validId (id : String) : Bool :=
  !trimmedEmpty id && decide (id.utf8ByteSize ≤ 256) && !id.toList.any isControl && !hasHiddenText id

def isHelperConfig (config : AgentConfig) : Bool :=
  decide ((config.settings.bind fun settings => dataGet "workspaceRole" settings.additional) = some (.string "helper"))

def allowed (state : DaemonState) (agent : String) (record : SessionRecord) : Bool :=
  record.agentId == agent && record.kind != .helper && record.parentRunId.isNone && record.parentAgentId.isNone &&
    validId record.id && (state.agents[agent]?.any fun runtime => !isHelperConfig runtime.config) &&
    !state.pendingHistoryDeletions.any fun deletion =>
      deletion.agentId == agent && deletion.sessionId.all fun id => id == record.id

def rowAllowed (row : HistoryMessage) (agent : String) (record : SessionRecord) (hidden : List String) : Bool :=
  row.agentId == agent && row.sessionId == record.id && row.message.agentId == agent && row.message.roomId == roomOf record &&
    row.message.role != .system && !row.hidden && !hidden.contains row.message.id && validId row.message.id

/-- Whether a hot message of the room may be read. -/
def hotAllowed (message : Message) (agent : String) (hidden : List String) : Bool :=
  message.agentId == agent && message.role != .system && !hidden.contains message.id && validId message.id

def hotMessages (state : DaemonState) (agent : String) (record : SessionRecord) : List Message :=
  (state.agents[agent]?.elim [] (·.messages)).filter fun message => message.roomId == roomOf record

/-! ## A window -/

section

variable (store : HistoryStore) (agent : String) (record : SessionRecord) (hidden : List String)

def findAnchor (hot : List Message) (request : WindowRequest) : Except HistoryReadError (Option Message) :=
  match hot.find? fun message => message.id == request.anchorMessageId with
  | some message =>
    .ok (if message.role ≠ .system ∧ hidden.contains message.id = false ∧ message.agentId = agent then some message else none)
  | none => do
    let found ← okOr (store.getMessage agent request.sessionId request.anchorMessageId) .unavailable
    match found with
    | none => .ok none
    | some row => do
      ensure (row.agentId = agent ∧ row.sessionId = record.id ∧ row.message.agentId = agent ∧
        row.message.roomId = roomOf record ∧ row.message.id = request.anchorMessageId ∧ validId row.message.id = true) .unavailable
      .ok (if rowAllowed row agent record hidden then some row.message else none)

def misplaced (older : Bool) (order : MessageOrder) (row : HistoryMessage) : Bool :=
  if older then (compare row.order order).isGE else (compare row.order order).isLE

/-- One round of the loop over the rows of a page. -/
def takeRow (older : Bool) (order : MessageOrder) (hotIds : List String) (acc : Table String Message × Bool)
    (row : HistoryMessage) : Except HistoryReadError (Table String Message × Bool) :=
  if rowAllowed row agent record hidden = false then .ok (acc.1, true)
  else if misplaced older order row then .error .unavailable
  else if hotIds.contains row.message.id then .ok acc
  else .ok (acc.1.insert row.message.id row.message, acc.2)

/-- The rows of one page: the messages so far, and whether a row was left out. -/
def takePage (older : Bool) (order : MessageOrder) (hotIds : List String) (limit : ℕ) (merged : Table String Message)
    (rows : List HistoryMessage) : Except HistoryReadError (Table String Message × Bool) := do
  ensure (rows.length ≤ limit) .unavailable
  rows.foldlM (takeRow agent record hidden older order hotIds) (merged, false)

def mergeHot (merged : Table String Message) (hot : List Message) : Table String Message :=
  (hot.filter fun message => hotAllowed message agent hidden).foldl (fun merged message => merged.insert message.id message) merged

def newestFirst (a b : Message) : Ordering := compare (messageOrder b) (messageOrder a)

def oldestFirst (a b : Message) : Ordering := compare (messageOrder a) (messageOrder b)

def olderThan (merged : Table String Message) (order : MessageOrder) : List Message :=
  (merged.vals.filter fun message => (compare (messageOrder message) order).isLT).mergeSort fun a b => (newestFirst a b).isLE

def newerThan (merged : Table String Message) (order : MessageOrder) : List Message :=
  (merged.vals.filter fun message => (compare (messageOrder message) order).isGT).mergeSort fun a b => (oldestFirst a b).isLE

end

/-- The second look at the state: the messages that may still be read, if the window may. -/
def stillAllowed (live : DaemonState) (agent : String) (record : SessionRecord) (anchor : Message)
    (merged : Table String Message) : Option (Table String Message) :=
  if (live.sessions[(agent, record.id)]?.any fun found => roomOf found == roomOf record && allowed live agent found) then
    let liveHidden := hiddenMessageIds (hotMessages live agent record)
    if liveHidden.contains anchor.id then none
    else some ((merged.filter fun id _ => !liveHidden.contains id).insert anchor.id anchor)
  else none

def cutWindow (record : SessionRecord) (request : WindowRequest) (anchor : Message) (merged : Table String Message)
    (beforeWitness afterWitness omittedBefore omittedAfter : Bool) : ConversationWindow :=
  let order := messageOrder anchor
  let older := olderThan merged order
  let newer := newerThan merged order
  { sessionId := record.id
    anchorMessageId := request.anchorMessageId
    messages := (older.take request.beforeCount).reverse ++ anchor :: newer.take request.afterCount
    hasEarlier := decide (request.beforeCount < older.length) || beforeWitness || omittedBefore
    hasLater := decide (request.afterCount < newer.length) || afterWitness || omittedAfter
    omitted := omittedBefore || omittedAfter }

/-- `window_inner` from the anchor on. -/
def windowAround (store : HistoryStore) (live : DaemonState) (agent : String) (record : SessionRecord) (request : WindowRequest)
    (hot : List Message) (anchor : Message) : Except HistoryReadError (Option ConversationWindow) := do
  let hidden := hiddenMessageIds hot
  let order := messageOrder anchor
  let before ← okOr (store.pageMessages ⟨agent, record.id, some order, request.beforeCount + 1, false⟩) .unavailable
  let after ← okOr (store.pageMessagesAfter ⟨agent, record.id, order, request.afterCount + 1, false⟩) .unavailable
  let hotIds := hot.map (·.id)
  let first ← takePage agent record hidden true order hotIds (request.beforeCount + 1) ∅ before
  let second ← takePage agent record hidden false order hotIds (request.afterCount + 1) first.1 after
  let merged := mergeHot agent hidden second.1 hot
  .ok ((stillAllowed live agent record anchor merged).map fun merged =>
    cutWindow record request anchor merged (decide (request.beforeCount + 1 ≤ before.length))
      (decide (request.afterCount + 1 ≤ after.length)) first.2 second.2)

def windowInner (store : HistoryStore) (state live : DaemonState) (agent : String) (request : WindowRequest) :
    Except HistoryReadError (Option ConversationWindow) :=
  match state.sessions[(agent, request.sessionId)]?.filter fun record => allowed state agent record with
  | none => .ok none
  | some record => do
    let hot := hotMessages state agent record
    let anchor ← findAnchor store agent record (hiddenMessageIds hot) hot request
    match anchor with
    | none => .ok none
    | some anchor => windowAround store live agent record request hot anchor

def selectConversationWindow (store : HistoryStore) (state live : DaemonState) (agent : String) (request : WindowRequest) :
    Except HistoryReadError (Option ConversationWindow) :=
  if validId request.sessionId = false ∨ validId request.anchorMessageId = false ∨ 19 < request.beforeCount ∨
      19 < request.afterCount ∨ 19 < request.beforeCount + request.afterCount then .error .invalidRequest
  else windowInner store state live agent request

/-! ## The store of ephemeral mode -/

def newestRowFirst (a b : HistoryMessage) : Ordering := compare b.order a.order

def oldestRowFirst (a b : HistoryMessage) : Ordering := compare a.order b.order

def maxHistoryWindowPage : ℕ := 20

/-- `MemoryHistoryStore`: its messages, by their ids. -/
structure MemoryHistoryStore where
  messages : Table String HistoryMessage

namespace MemoryHistoryStore

variable (s : MemoryHistoryStore)

def getMessage (agentId sessionId messageId : String) : Option HistoryMessage :=
  s.messages[messageId]?.filter fun row => row.agentId == agentId && row.sessionId == sessionId

/-- The rows that `page_messages` may return. -/
def pageable (query : MessagePageQuery) (row : HistoryMessage) : Bool :=
  row.agentId == query.agentId && row.sessionId == query.sessionId && (query.includeHidden || !row.hidden) &&
    query.before.all fun before => (compare row.order before).isLT

def pageMessages (query : MessagePageQuery) : List HistoryMessage :=
  ((s.messages.vals.filter (pageable query)).mergeSort fun a b => (newestRowFirst a b).isLE).take query.limit

def validateAfterQuery (query : MessageAfterQuery) : Bool :=
  decide (query.limit ≤ maxHistoryWindowPage) && validId query.agentId && validId query.sessionId && validId query.after.2.2 &&
    decide (query.after.1 < 2 ^ 63) && decide (query.after.2.1 < 2 ^ 63)

/-- The rows that `page_messages_after` passes over. -/
def skipped (query : MessageAfterQuery) (row : HistoryMessage) : Bool :=
  row.agentId != query.agentId || row.sessionId != query.sessionId || (!query.includeHidden && row.hidden) ||
    (compare row.order query.after).isLE

/-- One round of the loop of `page_messages_after`; the binary search finds the place in the order. -/
def selectRow (query : MessageAfterQuery) (selected : List HistoryMessage) (row : HistoryMessage) : List HistoryMessage :=
  if skipped query row then selected
  else if query.limit ≤ (selected.takeWhile fun existing => (oldestRowFirst existing row).isLT).length then selected
  else (place oldestRowFirst row selected).take query.limit

def pageMessagesAfter (query : MessageAfterQuery) : Option (List HistoryMessage) :=
  if validateAfterQuery query = false then none
  else if query.limit = 0 then some []
  else some (s.messages.vals.foldl (selectRow query) [])

def store : HistoryStore where
  getMessage agentId sessionId messageId := some (s.getMessage agentId sessionId messageId)
  pageMessages query := some (s.pageMessages query)
  pageMessagesAfter query := s.pageMessagesAfter query

end MemoryHistoryStore

end AnimaCore.HistoryRead
