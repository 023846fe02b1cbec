import AnimaCore.Lib.Machine
import AnimaCore.Lib.Method
import AnimaCore.Lib.Sweep
import AnimaCore.ToolRpc

/-!
# AnimaCore.AutomationEvents — the events that start automations

`schedules/event.rs`: an owner or a native run names an event; each automation of the agent on its topic gets one
occurrence of it, which a later tick claims and runs.

* The registry is the list of the occurrences, in the order of their acceptance; `schedules` is the daemon's map of the
  automations, and `values` its values in the order in which the hash map yields them.
* `Host` has SHA-256 (with its hexadecimal text) and the length of a value as JSON text.
* A `ScheduledPromptRecord` has the fields that these functions read.
-/

namespace AnimaCore.AutomationEvents

open Lib Lib.Table

/-! ## Bounds -/

def maxEventPayloadBytes : ℕ := 8192

def maxEventOccurrences : ℕ := 256

def maxPendingEvents : ℕ := 64

/-- The nodes that `validate_payload` allows. -/
def maxPayloadNodes : ℕ := 256

/-- The depth that `validate_payload` allows. -/
def maxPayloadDepth : ℕ := 8

/-! ## Automations -/

inductive ScheduleTrigger
  | interval (intervalMs : ℕ)
  | daily (hour minute : ℕ) (timeZone : String)
  | cron (expression timeZone : String)
  | once (atMs : ℕ)
  | event (topic : String)
  deriving DecidableEq, Repr

inductive AutomationCreator
  | owner
  | agent (agentId sessionId runId toolCallId : String)
  deriving DecidableEq, Repr

/-- `ScheduledPromptRecord`; of the last fire and the last outcome, their times. -/
structure ScheduledPromptRecord where
  id : String
  agentId : String
  trigger : ScheduleTrigger
  enabled : Bool
  lastFired : Option ℕ
  lastSafeOutcome : Option ℕ
  createdBy : AutomationCreator
  deriving DecidableEq, Repr

/-- The automations by identifier. -/
abbrev Schedules := Table String ScheduledPromptRecord

def unresolvedOccurrence (s : ScheduledPromptRecord) : Bool :=
  s.lastFired.any fun fired => s.lastSafeOutcome.all fun occurred => decide (occurred < fired)

/-- `matches!(created_by, AutomationCreator::Agent { .. })`. -/
def AutomationCreator.isAgent : AutomationCreator → Bool
  | .owner => false
  | .agent .. => true

/-- Whether the automation waits for events of the topic. -/
def ScheduledPromptRecord.listens (s : ScheduledPromptRecord) (topic : String) : Bool := s.trigger == .event topic

/-! ## Occurrences -/

structure EventOccurrence where
  id : String
  eventId : String
  agentId : String
  scheduleId : String
  topic : String
  payload : ToolRpc.Value
  atMs : ℕ
  claimed : Bool
  deriving DecidableEq

abbrev EventRegistry := List EventOccurrence

structure EventAdmission where
  accepted : ℕ
  duplicate : ℕ
  deriving DecidableEq, Repr

/-- `ScheduleError`, as far as events raise it. -/
inductive ScheduleError
  | invalid (message : String)
  | conflict (message : String)
  | busy (message : String)
  deriving DecidableEq, Repr

structure Host where
  /-- `hex::encode` of the SHA-256 of some bytes. -/
  sha256 : List UInt8 → String
  /-- The length of `serde_json::to_vec`. -/
  jsonSize : ToolRpc.Value → ℕ

def isAsciiLowercase (c : Char) : Bool := 'a' ≤ c && c ≤ 'z'

def validTopic (topic : String) : Bool :=
  topic.toList.head?.any isAsciiLowercase && decide (topic.utf8ByteSize ≤ 80) &&
    topic.toList.all fun c => isAsciiLowercase c || c.isDigit || "._-".toList.contains c

def validEventId (id : String) : Bool :=
  !id.isEmpty && decide (id.utf8ByteSize ≤ 128) &&
    id.toList.all fun c => c.isAlphanum || "._-:".toList.contains c

/-- The walk of `validate_payload`: a stack of values with their depth; `budget` is how many nodes are still allowed. -/
def payloadFits : ℕ → List (ToolRpc.Value × ℕ) → Bool
  | _, [] => true
  | 0, _ :: _ => false
  | budget + 1, (value, depth) :: pending =>
    if maxPayloadDepth < depth then false
    else payloadFits budget ((value.children.map fun child => (child, depth + 1)).reverse ++ pending)

/-- `value.is_object()`. -/
def isObject : ToolRpc.Value → Bool
  | .object _ => true
  | _ => false

def validatePayload (host : Host) (payload : ToolRpc.Value) : Except ScheduleError Unit := do
  ensure (isObject payload = true ∧ host.jsonSize payload ≤ maxEventPayloadBytes)
    (.invalid "Event payload must be an object of at most 8192 bytes")
  ensure (payloadFits maxPayloadNodes [(payload, 0)] = true) (.invalid "Event payload exceeds its structure limit")

/-- `u64::to_be_bytes`. -/
def beBytes (n : ℕ) : List UInt8 := [56, 48, 40, 32, 24, 16, 8, 0].map fun shift => UInt8.ofNat (n / 2 ^ shift)

def occurrenceId (host : Host) (scheduleId eventId : String) : String :=
  "event:" ++ host.sha256
    (beBytes scheduleId.utf8ByteSize ++ scheduleId.toByteArray.data.toList ++ eventId.toByteArray.data.toList)

def stale (item : EventOccurrence) (schedules : Schedules) : Bool :=
  !schedules[item.scheduleId]?.any fun s => s.agentId == item.agentId && s.listens item.topic

def retire (schedules : Schedules) (item : EventOccurrence) : EventOccurrence :=
  if stale item schedules then { item with claimed := true } else item

def unclaimed (r : EventRegistry) : ℕ := r.countP fun v => !v.claimed

namespace EventRegistry

def snapshot (r : EventRegistry) : List EventOccurrence := r

/-- The checks that `restore` makes of one occurrence, beside that its identifier is new. -/
def validStored (host : Host) (schedules : Schedules) (item : EventOccurrence) : Bool :=
  validTopic item.topic && validEventId item.eventId &&
    item.id == occurrenceId host item.scheduleId item.eventId && item.atMs != 0 && !trimmedEmpty item.agentId &&
    !trimmedEmpty item.scheduleId && (validatePayload host item.payload).isOk &&
    !schedules[item.scheduleId]?.any fun s => s.agentId != item.agentId

/-- One turn of the loop of `restore`. -/
def restoreItem (host : Host) (schedules : Schedules) (acc : List String × EventRegistry) (item : EventOccurrence) :
    Except String (List String × EventRegistry) := do
  ensure (validStored host schedules item = true ∧ item.id ∉ acc.1) "Invalid stored automation event"
  return (item.id :: acc.1, acc.2 ++ [retire schedules item])

def restore (host : Host) (occurrences : List EventOccurrence) (schedules : Schedules) : Except String EventRegistry := do
  ensure (occurrences.length ≤ maxEventOccurrences) "Too many stored automation events"
  let checked ← occurrences.foldlM (restoreItem host schedules) ([], [])
  let kept := checked.2.filter fun item => schedules.contains item.scheduleId
  ensure (unclaimed kept ≤ maxPendingEvents) "Too many pending automation events"
  return kept

/-- What an `enqueue` is asked for. -/
structure Request where
  agentId : String
  eventId : String
  topic : String
  payload : ToolRpc.Value
  atMs : ℕ

/-- The occurrence of the event for one automation. -/
def occurrence (host : Host) (q : Request) (s : ScheduledPromptRecord) : EventOccurrence :=
  { id := occurrenceId host s.id q.eventId, eventId := q.eventId, agentId := q.agentId, scheduleId := s.id
    topic := q.topic, payload := q.payload, atMs := q.atMs, claimed := false }

/-- One turn of the loop of `enqueue_inner`: the duplicates counted so far, and the occurrences added. -/
def addOne (host : Host) (r : EventRegistry) (q : Request) (acc : ℕ × List EventOccurrence)
    (s : ScheduledPromptRecord) : ℕ × List EventOccurrence :=
  if r.any fun v => v.id == occurrenceId host s.id q.eventId then (acc.1 + 1, acc.2)
  else if !s.enabled then acc
  else (acc.1, acc.2 ++ [occurrence host q s])

/-- `EventRegistry::enqueue_inner`, on the copy. -/
def enqueueInner (host : Host) (schedules : Schedules) (values : List ScheduledPromptRecord) (q : Request) :
    Method ScheduleError EventRegistry EventAdmission := do
  Method.check (ensure (validTopic q.topic = true ∧ validEventId q.eventId = true ∧ q.atMs ≠ 0)
    (.invalid "Event topic or eventId is invalid"))
  Method.check (validatePayload host q.payload)
  let r ← get
  let conflicting := r.any fun v =>
    v.agentId == q.agentId && v.eventId == q.eventId && (v.topic != q.topic || v.payload != q.payload)
  Method.check (ensure (conflicting = false) (.conflict "This eventId already names a different event"))
  let r := (r.filter fun item => schedules.contains item.scheduleId).map (retire schedules)
  set r
  let waiting := values.filter fun s => s.agentId == q.agentId && s.listens q.topic
  let added := waiting.foldl (addOne host r q) (0, [])
  Method.check (ensure (unclaimed r + added.2.length ≤ maxPendingEvents) (.busy "Automation event queue is full"))
  Method.check (ensure (r.length + added.2.length ≤ maxEventOccurrences) (.busy
    "Automation event history is full; delete an event automation to release its retained identities"))
  set (r ++ added.2)
  return { accepted := added.2.length, duplicate := added.1 }

/-- `EventRegistry::enqueue`: the copy replaces the registry only at the end. -/
def enqueue (host : Host) (schedules : Schedules) (values : List ScheduledPromptRecord) (q : Request) :
    Method ScheduleError EventRegistry EventAdmission := do
  let r ← get
  let (result, next) := (enqueueInner host schedules values q).call r
  let admission ← Method.check result
  set next
  return admission

/-- What keeps an automation from firing now: it is off, its last occurrence is unresolved, or an agent made it and it
fired in the last five minutes. -/
def blocked (s : ScheduledPromptRecord) (now : ℕ) : Bool :=
  !s.enabled || unresolvedOccurrence s ||
    (s.createdBy.isAgent && s.lastFired.any fun fired => decide (now < min (fired + 300000) (2 ^ 64 - 1)))

def due (r : EventRegistry) (s : ScheduledPromptRecord) (now : ℕ) : Option EventOccurrence :=
  match s.trigger with
  | .event topic =>
    if blocked s now then none
    else r.find? fun v => v.scheduleId == s.id && !v.claimed && v.topic == topic && decide (v.atMs ≤ now)
  | _ => none

def discardPending (r : EventRegistry) (scheduleId : String) : EventRegistry :=
  r.map fun v => if v.scheduleId == scheduleId then { v with claimed := true } else v

def removeSchedule (r : EventRegistry) (scheduleId : String) : EventRegistry :=
  r.filter fun v => v.scheduleId != scheduleId

def claim (id : String) : EventRegistry → Option EventOccurrence × EventRegistry
  | [] => (none, [])
  | v :: rest =>
    if v.id == id && !v.claimed then (some { v with claimed := true }, { v with claimed := true } :: rest)
    else
      let claimed := claim id rest
      (claimed.1, v :: claimed.2)

end EventRegistry

end AnimaCore.AutomationEvents
