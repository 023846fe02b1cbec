import AnimaCore.AnimaMemory.Records
import AnimaCore.Lib.Segments
import AnimaCore.Lib.Sweep
import AnimaCore.RunDelta
import AnimaCore.Runs

/-!
# AnimaCore.HotTail — pruning the hot tail of the transcripts

`sessions/pruning.rs` with the parts of `sessions/mod.rs` and `context_window.rs` it uses: the control plane keeps the newest
messages of each session, and anything recent; older messages that the history store holds leave it.

* `hiddenMessageIds`, `outsideNewestVisible`, `silentTurns`: what one room's messages say about which of them may leave.
* `DaemonState` has the fields that pruning reads or writes.  `HashMap`s are walked in the order of their keys.
* `sha` is the hash that names the session of a room whose name is no session name.
* `pruneHotTail` is one pass: what it changed, if anything, and the state after it.
* `revertPrune` puts a pass back after a failed save; `Host` says which agents can be restored.
-/

namespace AnimaCore.HotTail

open Lib RunDelta Runs AnimaMemory

def hotTailMessages : ℕ := 200

def hotTailMinAgeMs : ℕ := 24 * 60 * 60 * 1000

/-! ## Messages -/

/-- `BTreeMap::get`. -/
def dataGet (key : String) : DataFields → Option DataValue
  | .nil => none
  | .cons k value rest => if k = key then some value else dataGet key rest

def metadataStr (message : Message) (key : String) : Option String :=
  match message.content.metadata.bind (dataGet key) with
  | some (.string value) => some value
  | _ => none

def startsTurn (message : Message) : Bool := message.role == .user

def isCheckinMessage (message : Message) : Bool := startsTurn message && metadataStr message "kind" == some "checkin"

def isSilentCheckinReply (reply : String) : Bool := trim reply == "CHECKIN_OK"

def turnStarts (messages : List Message) : List ℕ := starts startsTurn messages

/-- `str::parse::<u64>`. -/
def parseU64 (text : List Char) : Option ℕ :=
  let digits := if text.head? = some '+' then text.tail else text
  let value := digits.foldl (fun value c => value * 10 + (c.toNat - '0'.toNat)) 0
  if digits ≠ [] ∧ digits.all Char.isDigit = true ∧ value < 2 ^ 64 then some value else none

def messageOrdinal (id : String) : ℕ :=
  let counter := (id.toList.reverse.takeWhile (· != '-')).reverse
  let front := id.toList.take (id.toList.length - counter.length - 1)
  if id.toList.contains '-' && "msg-".toList.isPrefixOf front then (parseU64 counter).getD 0 else 0

/-- `MessageOrder`, as the triple that it is compared by. -/
abbrev MessageOrder := ℕ × ℕ × String

/-- `MessageOrder::of`. -/
def messageOrder (message : Message) : MessageOrder := (message.createdAtMs, messageOrdinal message.id, message.id)

/-! ## One room -/

inductive GroupStart
  | missing
  | checkin
  | other
  deriving DecidableEq, Repr

/-- `close_group`: the ids it hides. -/
def closeGroup (group : List Message) (start : GroupStart) : List String :=
  match group.reverse.find? fun message => message.role == .assistant with
  | none => []
  | some reply =>
    if isSilentCheckinReply reply.content.text then
      match start with
      | .checkin => group.map (·.id)
      | .missing => [reply.id]
      | .other => []
    else []

def opening (group : List Message) : GroupStart := if group.head?.any isCheckinMessage then .checkin else .other

def hiddenMessageIds (messages : List Message) : List String :=
  let starts := turnStarts messages
  closeGroup (messages.take (starts.head?.getD messages.length)) .missing ++
    (starts.zip (starts.tail ++ [messages.length])).flatMap fun bounds =>
      let group := (messages.drop bounds.1).take (bounds.2 - bounds.1)
      closeGroup group (opening group)

/-- The loop of `outside_newest_visible`: where the newest visible messages begin. -/
def windowEdge (messages : List Message) (hidden : List String) : ℕ → ℕ → ℕ
  | 0, _ => 0
  | edge + 1, newerVisible =>
    if newerVisible < hotTailMessages then
      windowEdge messages hidden edge
        (if messages[edge]?.any fun message => !hidden.contains message.id then newerVisible + 1 else newerVisible)
    else edge + 1

def outsideNewestVisible (messages : List Message) (hidden : List String) : List Message :=
  let edge := windowEdge messages hidden messages.length 0
  messages.take (((turnStarts messages).reverse.find? (· ≤ edge)).getD 0)

/-- The turns so far, with the one that is being read. -/
def closedTurns (acc : List (List Message) × List Message) : List (List Message) :=
  if acc.2.isEmpty then acc.1 else acc.1 ++ [acc.2]

/-- One round of the loop of `silent_turns`. -/
def silentStep (hidden : List String) (acc : List (List Message) × List Message) (message : Message) :
    List (List Message) × List Message :=
  if !hidden.contains message.id then (closedTurns acc, [])
  else if startsTurn message then (closedTurns acc, [message])
  else (acc.1, acc.2 ++ [message])

def silentTurns (messages : List Message) (hidden : List String) : List (List Message) :=
  closedTurns (messages.foldl (silentStep hidden) ([], []))

/-! ## The state -/

inductive OutboundDeliveryState
  | pending
  | delivered
  | failed
  | suppressed
  deriving DecidableEq, Repr

def OutboundDeliveryState.isSettled : OutboundDeliveryState → Bool
  | .delivered | .suppressed => true
  | .pending | .failed => false

structure TelegramOutboundRecord where
  agentId : String
  assistantMessageId : String
  deliveryState : OutboundDeliveryState
  messagePruned : Bool
  deriving DecidableEq, Repr

inductive DiscordDeliveryState
  | pending
  | sending
  | delivered
  | failed
  | unknown
  | suppressed
  deriving DecidableEq, Repr

def DiscordDeliveryState.isSettled : DiscordDeliveryState → Bool
  | .delivered | .suppressed => true
  | .pending | .sending | .failed | .unknown => false

structure DiscordOutboundRecord where
  agentId : String
  assistantMessageId : String
  deliveryState : DiscordDeliveryState
  messagePruned : Bool
  deriving DecidableEq, Repr

structure SessionPrunedThrough where
  messageId : String
  createdAtMs : ℕ
  deriving DecidableEq, Repr

namespace SessionPrunedThrough

def of (message : Message) : SessionPrunedThrough := ⟨message.id, message.createdAtMs⟩

def order (through : SessionPrunedThrough) : MessageOrder :=
  (through.createdAtMs, messageOrdinal through.messageId, through.messageId)

end SessionPrunedThrough

inductive SessionKind
  | chat
  | telegram
  | discord
  | email
  | checkin
  | job
  | helper
  deriving DecidableEq, Repr

structure SessionRecord where
  id : String
  agentId : String
  kind : SessionKind
  title : String
  parentRunId : Option String
  parentAgentId : Option String
  prunedThrough : Option SessionPrunedThrough
  roomId : Option String
  deriving DecidableEq, Repr

structure HistoryService where
  ephemeral : Bool
  reconciled : Bool
  mirrored : KeySet String

def HistoryService.isMirrored (history : HistoryService) (id : String) : Bool := history.mirrored.contains id

structure DaemonState where
  agents : Table String AgentRuntime
  sessions : Table (String × String) SessionRecord
  runs : RunLedger
  outbound : Table String TelegramOutboundRecord
  discordOutbound : Table String DiscordOutboundRecord
  history : HistoryService

def isValidSessionId (id : String) : Bool :=
  id != "" && decide (id.utf8ByteSize ≤ 200) &&
    id.toList.all fun c => c.isAlphanum || c == '.' || c == '_' || c == ':' || c == '-'

/-- `session_id_for_room`; `sha` is the part of the digest that it shows. -/
def sessionIdForRoom (sha : String → String) (roomId : String) : String :=
  if isValidSessionId roomId then roomId else "legacy-room:" ++ sha roomId

def activeSessions (runs : RunLedger) : List (String × String) :=
  (runs.records.filter fun record => !record.status.isTerminal).map fun record => (record.agentId, record.sessionId)

/-- `retain_messages`: the runtime with what is kept, and what is removed. -/
def retainMessages (runtime : AgentRuntime) (keep : Message → Bool) : AgentRuntime × List Message :=
  ({ runtime with messages := runtime.messages.filter keep }, runtime.messages.filter fun message => !keep message)

/-! ## One pass -/

def rooms (messages : List Message) : Table String (List Message) :=
  messages.foldl (fun rooms message => rooms.insert message.roomId (rooms[message.roomId]?.getD [] ++ [message])) ∅

/-- What may leave a room, and the newest visible message of it. -/
structure RoomPrune where
  prunable : List String
  newest : Option SessionPrunedThrough
  deriving DecidableEq, Repr

/-- The messages that leave a room because of the window. -/
def roomPrunable (eligible : Message → Bool) (messages : List Message) : List Message :=
  if hotTailMessages < messages.length then
    (outsideNewestVisible messages (hiddenMessageIds messages)).filter eligible
  else []

def silentPrunable (eligible : Message → Bool) (messages : List Message) : List Message :=
  ((silentTurns messages (hiddenMessageIds messages)).filter fun turn => turn.all eligible).flatten

def pruneRoom (eligible : Message → Bool) (messages : List Message) : RoomPrune where
  prunable := (roomPrunable eligible messages ++ silentPrunable eligible messages).map (·.id)
  newest := ((roomPrunable eligible messages).reverse.find? fun message =>
    !(hiddenMessageIds messages).contains message.id).map .of

structure PruneUndo where
  agents : List (String × AgentRuntime)
  markedOutbound : List String
  markedDiscordOutbound : List String
  sessions : List (String × String × Option SessionPrunedThrough)
  messageIds : List String

namespace DaemonState

variable (sha : String → String) (s : DaemonState) (now : ℕ)

def undeliveredReferences : List String :=
  ((s.outbound.vals.filter fun record => !record.deliveryState.isSettled).map (·.assistantMessageId)) ++
    (s.discordOutbound.vals.filter fun record => !record.deliveryState.isSettled).map (·.assistantMessageId)

/-- The closure `eligible`. -/
def eligible (message : Message) : Bool :=
  decide (message.createdAtMs ≤ now - hotTailMinAgeMs) && !s.undeliveredReferences.contains message.id &&
    s.history.isMirrored message.id

/-- The rooms of an agent whose sessions have no active run. -/
def idleRooms (agentId : String) (runtime : AgentRuntime) : List (String × List Message) :=
  (rooms runtime.messages).toList.filter fun room =>
    !(activeSessions s.runs).contains (agentId, sessionIdForRoom sha room.1)

def prunable (agentId : String) (runtime : AgentRuntime) : List String :=
  (s.idleRooms sha agentId runtime).flatMap fun room => (pruneRoom (s.eligible now) room.2).prunable

def newestPruned (agentId : String) (runtime : AgentRuntime) : List (String × String × SessionPrunedThrough) :=
  (s.idleRooms sha agentId runtime).flatMap fun room =>
    (pruneRoom (s.eligible now) room.2).newest.toList.map fun newest => (agentId, sessionIdForRoom sha room.1, newest)

/-- One round of the loop that removes the messages. -/
def removeMessages (acc : Table String AgentRuntime × PruneUndo) (agent : String × List String) :
    Table String AgentRuntime × PruneUndo :=
  match acc.1[agent.1]? with
  | none => acc
  | some runtime =>
    let retained := retainMessages runtime fun message => !agent.2.contains message.id
    (acc.1.insert agent.1 retained.1,
      { acc.2 with
        agents := acc.2.agents ++ [(agent.1, runtime)]
        messageIds := acc.2.messageIds ++ retained.2.map (·.id) })

/-- One round of the loop that moves the marks. -/
def moveMark (acc : Table (String × String) SessionRecord × List (String × String × Option SessionPrunedThrough))
    (newest : String × String × SessionPrunedThrough) :
    Table (String × String) SessionRecord × List (String × String × Option SessionPrunedThrough) :=
  match acc.1[(newest.1, newest.2.1)]? with
  | none => acc
  | some record =>
    if record.prunedThrough.all fun previous => compare newest.2.2.order previous.order == .gt then
      (acc.1.insert (newest.1, newest.2.1) { record with prunedThrough := some newest.2.2 },
        acc.2 ++ [(newest.1, newest.2.1, record.prunedThrough)])
    else acc

def pruneHotTail : Option PruneUndo × DaemonState :=
  if s.history.ephemeral || !s.history.reconciled then (none, s)
  else
    let prunableByAgent := (s.agents.toList.map fun agent => (agent.1, s.prunable sha now agent.1 agent.2)).filter
      fun agent => !agent.2.isEmpty
    let newestPruned := s.agents.toList.flatMap fun agent => s.newestPruned sha now agent.1 agent.2
    if prunableByAgent.isEmpty then (none, s)
    else
      let (agents, undo) := prunableByAgent.foldl removeMessages (s.agents, ⟨[], [], [], [], []⟩)
      let unmarked (record : DiscordOutboundRecord) : Bool :=
        record.deliveryState.isSettled && !record.messagePruned && undo.messageIds.contains record.assistantMessageId
      let unmarkedTelegram (record : TelegramOutboundRecord) : Bool :=
        record.deliveryState.isSettled && !record.messagePruned && undo.messageIds.contains record.assistantMessageId
      let (sessions, moved) := newestPruned.foldl moveMark (s.sessions, [])
      (some { undo with
          markedDiscordOutbound := (s.discordOutbound.toList.filter fun entry => unmarked entry.2).map Prod.fst
          markedOutbound := (s.outbound.toList.filter fun entry => unmarkedTelegram entry.2).map Prod.fst
          sessions := moved },
        { s with
          agents := agents
          discordOutbound := s.discordOutbound.map fun _ record =>
            if unmarked record then { record with messagePruned := true } else record
          outbound := s.outbound.map fun _ record =>
            if unmarkedTelegram record then { record with messagePruned := true } else record
          sessions := sessions })

end DaemonState

/-! ## A pass put back -/

/-- What the restoring of an agent calls elsewhere. -/
structure Host where
  /-- `resolve_restored_agent_tools` succeeds -/
  resolves : String → Bool
  /-- an event of an agent, with its id and its time -/
  event : String → EventType → DataValue → EngineEvent

/-- `AgentRuntime::from_snapshot`, of the snapshot of a runtime. -/
def fromSnapshot (runtime : AgentRuntime) : AgentRuntime :=
  { runtime with
    events := runtime.events.drop (runtime.events.length - maxRetainedEvents)
    eventTotal := max runtime.eventTotal runtime.events.length }

def recordEvent (runtime : AgentRuntime) (event : EngineEvent) : AgentRuntime :=
  { runtime with
    events := AgentRuntime.trimEvents (runtime.events ++ [event])
    eventTotal := (runtime.eventTotal + 1) % 2 ^ 64 }

def markFailed (host : Host) (agentId : String) (runtime : AgentRuntime) (error : String) (durationMs : ℕ) : AgentRuntime :=
  let failed := { runtime with
    status := .failed
    lastTask := some { status := .error, data := none, error := some error, durationMs := durationMs } }
  recordEvent (recordEvent failed (host.event agentId .agentFailed (.string error)))
    (host.event agentId .taskFailed (.string error))

/-- `restore_agent_snapshot`, of the snapshot of a runtime: the runtime that comes back. -/
def restoredRuntime (host : Host) (agentId : String) (runtime : AgentRuntime) : AgentRuntime :=
  let restored := fromSnapshot runtime
  if restored.status = .running then markFailed host agentId restored "daemon restarted before task completed" 0 else restored

/-- One round of the loop over the agents: the agents, and those that stay pruned. -/
def restoreAgent (host : Host) (acc : Table String AgentRuntime × List String) (agent : String × AgentRuntime) :
    Table String AgentRuntime × List String :=
  if host.resolves agent.1 then (acc.1.insert agent.1 (restoredRuntime host agent.1 agent.2), acc.2)
  else (acc.1, acc.2 ++ [agent.1])

/-- One round of the loop over the marked Discord records. -/
def unmarkDiscord (records : Table String DiscordOutboundRecord) (id : String) : Table String DiscordOutboundRecord :=
  records.modify id fun record => { record with messagePruned := false }

/-- One round of the loop over the marked Telegram records. -/
def unmarkTelegram (stillPruned : List String) (records : Table String TelegramOutboundRecord) (id : String) :
    Table String TelegramOutboundRecord :=
  records.modify id fun record => if stillPruned.contains record.agentId then record else { record with messagePruned := false }

/-- One round of the loop over the sessions whose marks moved. -/
def moveBack (stillPruned : List String) (sessions : Table (String × String) SessionRecord)
    (moved : String × String × Option SessionPrunedThrough) : Table (String × String) SessionRecord :=
  if stillPruned.contains moved.1 then sessions
  else sessions.modify (moved.1, moved.2.1) fun record => { record with prunedThrough := moved.2.2 }

def DaemonState.revertPrune (host : Host) (s : DaemonState) (undo : PruneUndo) : DaemonState :=
  let restored := undo.agents.foldl (restoreAgent host) (s.agents, [])
  { s with
    agents := restored.1
    discordOutbound := undo.markedDiscordOutbound.foldl unmarkDiscord s.discordOutbound
    outbound := undo.markedOutbound.foldl (unmarkTelegram restored.2) s.outbound
    sessions := undo.sessions.foldl (moveBack restored.2) s.sessions }

end AnimaCore.HotTail
