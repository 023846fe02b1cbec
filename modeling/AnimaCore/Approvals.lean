import AnimaCore.AnimaMemory.Records
import AnimaCore.CommandPrefix
import AnimaCore.Lib.Machine
import AnimaCore.Lib.Method
import AnimaCore.Lib.Sweep
import AnimaCore.RunDelta
import AnimaCore.Runs

/-!
# AnimaCore.Approvals — the calls that wait for the owner

`state/approval_state.rs`, `approvals/registry.rs`, and the matchers of `approvals/policy.rs`: a tool call that needs
the owner opens a pending approval and its run waits; a decision, a timeout or a stop settles the approval and lets the
run go on.

* A method of the state is a `Lib.Method`: what it had written before it returned an error is still there.
* `Host` holds the functions of the call that only fill fields of a record (its class, its arguments as text, the
  suggested matcher, the floor's reason), the test for an exact record, and the order in which the hash map of the
  rules is read.
* New identifiers are arguments (`apr_` and `rule_` with a new UUID in the source).
* The records have the fields that these methods read or write.  Policies, and what is announced or saved after a
  method has returned, are left out.
-/

namespace AnimaCore.Approvals

open Lib Lib.Table Runs

/-! ## Bounds and texts -/

def maxMatcherValueChars : ℕ := 512

def maxApprovalRulesPerAgent : ℕ := 100

def maxSessionAllowances : ℕ := 50

def maxApprovalNoteChars : ℕ := 1000

def matcherKindNotForTool : String := "This matcher kind does not apply to this tool"

def matcherValueInvalid : String := "matcher value is not valid for its kind"

def tooManyRules : String := "This companion already has 100 approval rules; remove one first"

def approvalNoteTooLong : String := "note must be at most 1,000 characters"

def approvalTimedOut : String := "Approval timed out"

def tooManySessionAllowances : String := "This session already has 50 allowances"

def approvalSessionGone : String := "This approval's session no longer exists"

/-! ## Matchers -/

inductive RiskClass
  | read
  | write
  | exec
  | network
  | delegate
  deriving DecidableEq, Repr

inductive MatcherKind
  | commandPrefix
  | pathGlob
  | domain
  | any
  deriving DecidableEq, Repr

structure ApprovalMatcher where
  kind : MatcherKind
  value : String
  deriving DecidableEq, Repr

def ApprovalMatcher.any : ApprovalMatcher := { kind := .any, value := "" }

def matcherKinds (tool : String) : List MatcherKind :=
  if tool ∈ ["bash", "bg_start", "app_start", "acp_start", "acp_execute"] then [.commandPrefix, .any]
  else if tool ∈ ["write_file", "edit_file", "multi_edit", "acp_edit"] then [.pathGlob, .any]
  else if tool ∈ ["web_fetch", "acp_fetch"] then [.domain, .any]
  else [.any]

/-- `matches!(character, '/' | '\\')`, where a path is cut. -/
def isPathSeparator (c : Char) : Bool := c == '/' || c == '\\'

def relativeComponents (path : String) : Option (List String) := do
  let path := (AnimaMemory.trim path).toList
  if path.head?.any isPathSeparator then none
  else
    let components ← (path.splitOnP isPathSeparator).foldlM (fun components component =>
      if component = [] ∨ component = ['.'] then some components
      else if component = ['.', '.'] then none
      else if ':' ∈ component ∨ String.ofList component ≠ AnimaMemory.trim (String.ofList component) then none
      else some (components ++ [String.ofList component])) []
    if components = [] then none else some components

def isAsciiAlphanumeric (c : Char) : Bool := c.isAlphanum

/-- `value.trim_end_matches('.')`. -/
def trimEndDots (value : List Char) : List Char := (value.reverse.dropWhile (· == '.')).reverse

def isDomain (value : String) : Bool :=
  let value := trimEndDots value.toList
  let labels := value.splitOnP (· == '.')
  decide (2 ≤ labels.length) && labels.all (fun label => !label.isEmpty) &&
    value.all (fun c => isAsciiAlphanumeric c || c == '-' || c == '.') &&
    ((labels.getLast?.bind List.head?).any Char.isAlpha)

def validateMatcher (tool : String) (m : ApprovalMatcher) : Except String ApprovalMatcher :=
  if m.kind ∉ matcherKinds tool then .error matcherKindNotForTool
  else
    let value := AnimaMemory.trim m.value
    let fits := !value.isEmpty && decide (value.toList.length ≤ maxMatcherValueChars)
    match m.kind with
    | .any => .ok .any
    | .commandPrefix =>
      if fits && ShellLex.prefixWordsArePlain value.toList then
        .ok { m with value := " ".intercalate ((ShellLex.shellWords value.toList).map String.ofList) }
      else .error matcherValueInvalid
    | .pathGlob =>
      if fits && (relativeComponents value).isSome then .ok { m with value := value } else .error matcherValueInvalid
    | .domain =>
      if fits && isDomain value then .ok { m with value := String.ofList ((trimEndDots value.toList).map Char.toLower) }
      else .error matcherValueInvalid

/-! ## Records -/

inductive ApprovalStatus
  | pending
  | allowed
  | denied
  | stopped
  | expired
  deriving DecidableEq, Repr

inductive ApprovalDecisionKind
  | allowOnce
  | allowSession
  | allowAlways
  | deny
  deriving DecidableEq, Repr

inductive ResolvedBy
  | owner
  | timeout
  | stop
  | restart
  deriving DecidableEq, Repr

structure ApprovalResolution where
  decision : Option ApprovalDecisionKind
  note : Option String
  matcher : Option ApprovalMatcher
  ruleId : Option String
  resolvedBy : ResolvedBy
  resolvedAtMs : ℕ
  deriving DecidableEq, Repr

structure ApprovalRequest where
  id : String
  agentId : String
  sessionId : String
  runId : String
  toolCallId : String
  tool : String
  riskClass : RiskClass
  arguments : String
  argumentsTruncated : Bool
  suggestedMatcher : ApprovalMatcher
  createdAtMs : ℕ
  expiresAtMs : ℕ
  status : ApprovalStatus
  revision : ℕ
  resolution : Option ApprovalResolution
  reason : Option String
  reasonDetail : Option String
  deriving DecidableEq, Repr

namespace ApprovalRequest

def isPending (a : ApprovalRequest) : Bool := a.status == .pending

def resolve (a : ApprovalRequest) (status : ApprovalStatus) (resolution : ApprovalResolution) : ApprovalRequest :=
  { a with status, resolution := some resolution, revision := a.revision + 1 }

end ApprovalRequest

structure ApprovalRule where
  id : String
  agentId : String
  tool : String
  matcher : ApprovalMatcher
  createdAtMs : ℕ
  fromApprovalId : Option String
  deriving DecidableEq, Repr

structure SessionAllowance where
  tool : String
  matcher : ApprovalMatcher
  createdAtMs : ℕ
  fromApprovalId : String
  deriving DecidableEq, Repr

/-- The part of a `RunRecord` that an approval reads or moves. -/
structure RunRecord where
  id : String
  agentId : String
  status : RunStatus
  /-- When the stop was requested (`RunStopRequest`). -/
  stop : Option ℕ
  deriving DecidableEq, Repr

/-- The part of a `SessionRecord` that an approval reads or changes. -/
structure SessionRecord where
  sessionAllowances : List SessionAllowance
  deriving DecidableEq, Repr

def isInFlight (status : RunStatus) : Bool := status == .running || status == .awaitingApproval

structure ToolCall where
  id : String
  name : String
  args : RunDelta.DataFields
  deriving DecidableEq

/-- The functions of a call or of a record that the methods below use. -/
structure Host where
  /-- `risk_class`. -/
  riskClass : String → RiskClass
  /-- `bounded_arguments`. -/
  boundedArguments : ToolCall → String × Bool
  /-- `suggested_matcher`. -/
  suggestedMatcher : ToolCall → ApprovalMatcher
  /-- Why the floor of the agent finds the call dangerous (`Floor::Dangerous`). -/
  danger : String → ToolCall → Option String
  /-- `write_policy::exact_record`. -/
  exactRecord : String → Bool
  /-- The order in which the rules are read. -/
  order : List ApprovalRule → List ApprovalRule

/-! ## The registry -/

structure ApprovalRegistry where
  approvals : Table String ApprovalRequest
  rules : Table String ApprovalRule

namespace ApprovalRegistry

def oldestFirst (left right : ApprovalRequest) : Bool :=
  (compare (left.createdAtMs, left.id) (right.createdAtMs, right.id)).isLE

def pending (r : ApprovalRegistry) : List ApprovalRequest :=
  ((vals r.approvals).filter ApprovalRequest.isPending).mergeSort oldestFirst

def pendingIdsForRun (r : ApprovalRegistry) (runId : String) : List String :=
  (r.pending.filter fun a => a.runId == runId).map ApprovalRequest.id

def insert (r : ApprovalRegistry) (a : ApprovalRequest) : ApprovalRegistry :=
  { r with approvals := r.approvals.insert a.id a }

def remove (r : ApprovalRegistry) (id : String) : ApprovalRegistry := { r with approvals := r.approvals.erase id }

def findRule (host : Host) (r : ApprovalRegistry) (agentId tool : String) (m : ApprovalMatcher) :
    Option ApprovalRule :=
  (host.order (vals r.rules)).find? fun rule => rule.agentId == agentId && rule.tool == tool && rule.matcher == m

def addRule (r : ApprovalRegistry) (rule : ApprovalRule) : Except String ApprovalRegistry :=
  let held := (vals r.rules).countP fun existing => existing.agentId == rule.agentId
  if maxApprovalRulesPerAgent ≤ held then .error tooManyRules
  else .ok { r with rules := r.rules.insert rule.id rule }

def removeRule (r : ApprovalRegistry) (agentId ruleId : String) : ApprovalRegistry :=
  if r.rules[ruleId]?.any fun rule => rule.agentId == agentId then { r with rules := r.rules.erase ruleId } else r

end ApprovalRegistry

/-! ## Asking -/

/-- The part of the daemon's state that approvals read or change. -/
structure DaemonState where
  runs : Table String RunRecord
  sessions : Table (String × String) SessionRecord
  approvals : ApprovalRegistry

structure RunLink where
  agentId : String
  sessionId : String
  runId : String
  deriving DecidableEq, Repr

structure ApprovalAsk where
  run : RunLink
  call : ToolCall
  timeoutMs : ℕ

structure OpenedApproval where
  approval : ApprovalRequest
  run : Option RunRecord

inductive OpenRefusal
  | stopped
  | unavailable
  deriving DecidableEq, Repr

/-- `ApprovalRequest::pending`; the expiry saturates. -/
def ApprovalRequest.new (host : Host) (id : String) (ask : ApprovalAsk) (now : ℕ) : ApprovalRequest :=
  let danger := host.danger ask.run.agentId ask.call
  { id, agentId := ask.run.agentId, sessionId := ask.run.sessionId, runId := ask.run.runId, toolCallId := ask.call.id
    tool := ask.call.name, riskClass := host.riskClass ask.call.name, arguments := (host.boundedArguments ask.call).1
    argumentsTruncated := (host.boundedArguments ask.call).2, suggestedMatcher := host.suggestedMatcher ask.call
    createdAtMs := now, expiresAtMs := min (now + ask.timeoutMs) (2 ^ 64 - 1), status := .pending, revision := 1
    resolution := none, reason := danger.map fun _ => "dangerous_command", reasonDetail := danger }

namespace DaemonState

def openApproval (host : Host) (id : String) (ask : ApprovalAsk) (now : ℕ) :
    Method OpenRefusal DaemonState OpenedApproval := do
  let s ← get
  let run ← Method.check (okOr (s.runs[ask.run.runId]?.filter fun run => run.agentId == ask.run.agentId) .unavailable)
  Method.check (ensure (run.stop = none) .stopped)
  Method.check (ensure (isInFlight run.status = true) .unavailable)
  let moved := run.status == .running
  let awaiting := { run with status := .awaitingApproval }
  let approval := ApprovalRequest.new host id ask now
  set { s with
    runs := if moved then s.runs.insert ask.run.runId awaiting else s.runs
    approvals := s.approvals.insert approval }
  return { approval, run := if moved then some awaiting else none }

def resumeIfUnblocked (s : DaemonState) (runId : String) : Option RunRecord × DaemonState :=
  if s.approvals.pendingIdsForRun runId ≠ [] then (none, s)
  else
    match s.runs[runId]?.filter fun run => run.status == .awaitingApproval with
    | none => (none, s)
    | some run =>
      let running := { run with status := .running }
      (some running, { s with runs := s.runs.insert runId running })

def revertOpenApproval (s : DaemonState) (opened : OpenedApproval) : DaemonState :=
  let s := { s with approvals := s.approvals.remove opened.approval.id }
  if opened.run.isSome then (s.resumeIfUnblocked opened.approval.runId).2 else s

end DaemonState

/-! ## Settling -/

structure OwnerDecision where
  kind : ApprovalDecisionKind
  note : Option String
  matcher : Option ApprovalMatcher
  revision : ℕ
  deriving DecidableEq, Repr

inductive Settlement
  | owner (decision : OwnerDecision)
  | timedOut
  | stopped
  deriving DecidableEq, Repr

inductive SettleRefusal
  | notFound
  | resolved (approval : ApprovalRequest)
  | stale
  | invalid (message : String)
  | conflict (message : String)
  deriving DecidableEq, Repr

structure ApprovalUndo where
  previous : ApprovalRequest
  addedRule : Option String
  addedAllowance : Bool
  resumedRun : Bool
  deriving DecidableEq, Repr

structure SettledApproval where
  approval : ApprovalRequest
  run : Option RunRecord
  undo : ApprovalUndo
  deriving DecidableEq, Repr

def normalizedNote (note : Option String) : Except SettleRefusal (Option String) :=
  match (note.map AnimaMemory.trim).filter fun note => !note.isEmpty with
  | none => .ok none
  | some note =>
    if maxApprovalNoteChars < note.toList.length then .error (.invalid approvalNoteTooLong) else .ok (some note)

/-- What a settlement makes of a pending approval: its status, its resolution, and the grant that it carries. -/
structure Outcome where
  status : ApprovalStatus
  resolution : ApprovalResolution
  grant : Option (ApprovalDecisionKind × ApprovalMatcher)

/-- The matcher of a decision: the owner's or the suggested one, for a decision that covers later calls. -/
def decisionMatcher (host : Host) (previous : ApprovalRequest) (decision : OwnerDecision) :
    Except SettleRefusal (Option ApprovalMatcher) :=
  if host.exactRecord previous.arguments then .ok none
  else
    match decision.kind with
    | .allowSession | .allowAlways =>
      match validateMatcher previous.tool (decision.matcher.getD previous.suggestedMatcher) with
      | .ok m => .ok (some m)
      | .error message => .error (.invalid message)
    | .allowOnce | .deny => .ok none

/-- The first `match` of `settle_approval`. -/
def outcome (host : Host) (previous : ApprovalRequest) (settlement : Settlement) (now : ℕ) :
    Except SettleRefusal Outcome :=
  match settlement with
  | .owner decision => do
    ensure (decision.revision = previous.revision) .stale
    let note ← normalizedNote decision.note
    let m ← decisionMatcher host previous decision
    return {
      status := if decision.kind = .deny then .denied else .allowed
      resolution := { decision := some decision.kind, note, matcher := m, ruleId := none, resolvedBy := .owner
                      resolvedAtMs := now }
      grant := m.map fun m => (decision.kind, m) }
  | .timedOut => .ok {
      status := .denied
      resolution := { decision := some .deny, note := some approvalTimedOut, matcher := none, ruleId := none
                      resolvedBy := .timeout, resolvedAtMs := now }
      grant := none }
  | .stopped => .ok {
      status := .stopped
      resolution := { decision := none, note := none, matcher := none, ruleId := none, resolvedBy := .stop
                      resolvedAtMs := now }
      grant := none }

/-- What a grant added: the rule of the resolution, and what an undo takes back. -/
structure Granted where
  ruleId : Option String
  addedRule : Option String
  addedAllowance : Bool

namespace DaemonState

/-- The arm `AllowSession` of `settle_approval`. -/
def allowForSession (previous : ApprovalRequest) (m : ApprovalMatcher) (now : ℕ) :
    Method SettleRefusal DaemonState Granted := do
  let s ← get
  let session ← Method.check
    (okOr s.sessions[(previous.agentId, previous.sessionId)]? (.conflict approvalSessionGone))
  let held := session.sessionAllowances.any fun a => a.tool == previous.tool && a.matcher == m
  if held then
    return { ruleId := none, addedRule := none, addedAllowance := false }
  else
    Method.check (ensure (session.sessionAllowances.length < maxSessionAllowances)
      (.conflict tooManySessionAllowances))
    let allowance := { tool := previous.tool, matcher := m, createdAtMs := now, fromApprovalId := previous.id }
    let session := { session with sessionAllowances := session.sessionAllowances ++ [allowance] }
    set { s with sessions := s.sessions.insert (previous.agentId, previous.sessionId) session }
    return { ruleId := none, addedRule := none, addedAllowance := true }

/-- The arm of `settle_approval` for every other grant. -/
def allowByRule (host : Host) (previous : ApprovalRequest) (m : ApprovalMatcher) (now : ℕ) (ruleId : String) :
    Method SettleRefusal DaemonState Granted := do
  let s ← get
  match s.approvals.findRule host previous.agentId previous.tool m with
  | some rule => return { ruleId := some rule.id, addedRule := none, addedAllowance := false }
  | none =>
    let rule := { id := ruleId, agentId := previous.agentId, tool := previous.tool, matcher := m, createdAtMs := now
                  fromApprovalId := some previous.id }
    let approvals ← Method.check ((s.approvals.addRule rule).mapError SettleRefusal.conflict)
    set { s with approvals }
    return { ruleId := some ruleId, addedRule := some ruleId, addedAllowance := false }

/-- The second `match` of `settle_approval`. -/
def addGrant (host : Host) (previous : ApprovalRequest) (grant : Option (ApprovalDecisionKind × ApprovalMatcher))
    (now : ℕ) (ruleId : String) : Method SettleRefusal DaemonState Granted :=
  match grant with
  | some (.allowSession, m) => allowForSession previous m now
  | some (_, m) => allowByRule host previous m now ruleId
  | none => return { ruleId := none, addedRule := none, addedAllowance := false }

def settleApproval (host : Host) (id : String) (settlement : Settlement) (now : ℕ) (ruleId : String) :
    Method SettleRefusal DaemonState SettledApproval := do
  let s ← get
  let previous ← Method.check (okOr s.approvals.approvals[id]? .notFound)
  Method.check (ensure (previous.isPending = true) (.resolved previous))
  let o ← Method.check (outcome host previous settlement now)
  let granted ← addGrant host previous o.grant now ruleId
  let s ← get
  let approval := previous.resolve o.status { o.resolution with ruleId := granted.ruleId }
  let s := { s with approvals := { s.approvals with approvals := s.approvals.approvals.insert id approval } }
  let resumed := s.resumeIfUnblocked approval.runId
  set resumed.2
  return { approval, run := resumed.1
           undo := { previous, addedRule := granted.addedRule, addedAllowance := granted.addedAllowance
                     resumedRun := resumed.1.isSome } }

/-- One turn of the loop of `stop_orphaned_approvals`; a refused settlement is skipped. -/
def stopOne (host : Host) (now : ℕ) (acc : List ApprovalRequest × DaemonState) (id : String) :
    List ApprovalRequest × DaemonState :=
  match (settleApproval host id .stopped now "").call acc.2 with
  | (.ok settled, s) => (acc.1 ++ [settled.approval], s)
  | (.error _, s) => (acc.1, s)

/-- `DaemonState::stop_orphaned_approvals`; a stop adds no rule, so the new identifier is not used. -/
def stopOrphanedApprovals (host : Host) (s : DaemonState) (runId : String) (now : ℕ) :
    List ApprovalRequest × DaemonState :=
  (s.approvals.pendingIdsForRun runId).foldl (stopOne host now) ([], s)

/-- Takes back the rule that a settlement added. -/
def removeAddedRule (s : DaemonState) (undo : ApprovalUndo) : DaemonState :=
  match undo.addedRule with
  | some ruleId => { s with approvals := s.approvals.removeRule undo.previous.agentId ruleId }
  | none => s

/-- Takes back the allowance that a settlement added. -/
def removeAddedAllowance (s : DaemonState) (undo : ApprovalUndo) : DaemonState :=
  if undo.addedAllowance then
    match s.sessions[(undo.previous.agentId, undo.previous.sessionId)]? with
    | none => s
    | some session =>
      let kept := session.sessionAllowances.filter fun a => a.fromApprovalId != undo.previous.id
      { s with sessions := s.sessions.insert (undo.previous.agentId, undo.previous.sessionId)
                  { session with sessionAllowances := kept } }
  else s

/-- Lets the run that a settlement resumed wait again. -/
def awaitAgain (s : DaemonState) (undo : ApprovalUndo) : DaemonState :=
  if undo.resumedRun then
    match s.runs[undo.previous.runId]?.filter fun run => run.status == .running with
    | none => s
    | some run => { s with runs := s.runs.insert undo.previous.runId { run with status := .awaitingApproval } }
  else s

def revertSettledApproval (s : DaemonState) (undo : ApprovalUndo) : DaemonState :=
  let s := ((s.removeAddedRule undo).removeAddedAllowance undo).awaitAgain undo
  { s with approvals := s.approvals.insert undo.previous }

end DaemonState

end AnimaCore.Approvals
