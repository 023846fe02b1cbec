import AnimaCore.Runs

/-!
# AnimaCore.Runs.Validation — which saved records are accepted

`RunLedger::validate` with what it calls: `turn::validate`, `validate_receipts` and `async_helper::validate`.  The
daemon refuses to load a saved state whose records are not accepted.

* `Host` is what the checks ask of other crates: the digest of an input and the check of a JSON schema.
* `Accepted`: what an accepted list is, without the order in which it is read (`validate_eq_ok`).
-/

namespace AnimaCore.Runs

open Lib

/-! ## What other crates compute -/

/-- `turn::digest` of an input, and `validate_output_contract`. -/
structure Host where
  digest : RunInput → String
  outputContract : String → Bool

def validDigest (value : String) : Bool := value.utf8ByteSize == 64 && value.toList.all isHexDigit

/-! ## Turns -/

def TurnBinding.validate (b : TurnBinding) : Except String Unit :=
  ensure ((∀ id ∈ [b.rootRunId, b.attemptRunId, b.agentId, b.sessionId],
      trimmedEmpty id = false ∧ id.utf8ByteSize ≤ 256) ∧
    ∀ digest ∈ [b.originalInputDigest, b.attemptInputDigest, b.workspaceDigest, b.configDigest],
      validDigest digest = true) "Invalid turn recovery binding"

/-- The offset of a phase in `TurnCheckpoint::validate`. -/
def TurnPhase.offset : TurnPhase → ℕ
  | .beforeModel => 0
  | .modelResponded => 1
  | .toolsSettled => 2

def TurnCheckpoint.validate (c : TurnCheckpoint) (binding : TurnBinding) : Except String Unit := do
  c.binding.validate
  ensure (c.binding = binding ∧ c.sequence ≠ 0 ∧ c.sequence ≤ 1000000 ∧ c.modelCalls ≠ 0 ∧ c.modelCalls ≤ 1000000 ∧
    c.progress.length ≤ 24 ∧ (∀ text ∈ c.progress, text.utf8ByteSize ≤ 1024) ∧ c.pendingTools.length ≤ 64 ∧
    (c.phase ≠ .modelResponded → c.pendingTools = []) ∧
    ∀ tool ∈ c.pendingTools, tool.callId ≠ "" ∧ tool.callId.utf8ByteSize ≤ 256 ∧ tool.name ≠ "" ∧
      tool.name.utf8ByteSize ≤ 256 ∧ validDigest tool.argumentsDigest = true) "Invalid or oversized turn checkpoint"
  ensure (c.modelCalls * 2 - 1 + c.phase.offset ≤ c.sequence ∧ c.sequence ≤ c.modelCalls * 3 - 2 + c.phase.offset)
    "Turn checkpoint does not match its model boundary"

/-- The checks of `turn::validate` that do not look at the final status. -/
def turnBound (host : Host) (record : RunRecord) (turn : RunTurn) : Except String Unit := do
  turn.binding.validate
  ensure (turn.binding.attemptRunId = record.id ∧ turn.binding.agentId = record.agentId ∧
    turn.binding.sessionId = record.sessionId ∧
    turn.binding.attemptInputDigest = host.digest record.effectiveInput ∧
    turn.binding.originalInputDigest = host.digest turn.originalInput ∧
    turn.originalInput.text.utf8ByteSize ≤ maxRunInputTextBytes ∧
    turn.originalInput.attachmentIds.length ≤ maxRunAttachments ∧
    (∀ id ∈ turn.originalInput.attachmentIds, id ≠ "" ∧ id.utf8ByteSize ≤ 256) ∧
    (∀ skill ∈ turn.originalInput.skill, skill.utf8ByteSize ≤ 1024) ∧
    (record.recoveryOf = none → turn.binding.rootRunId = record.id ∧
      turn.binding.originalInputDigest = turn.binding.attemptInputDigest))
    "Saved turn binding does not match its run"
  match turn.checkpoint with
  | none => pure ()
  | some checkpoint => checkpoint.validate turn.binding

/-- The checks of `turn::validate` on the final status. -/
def turnSealed (record : RunRecord) (turn : RunTurn) : Except String Unit :=
  match turn.terminal with
  | some terminal => do
    ensure (record.status.isTerminal = true ∧ terminal.status = record.status ∧
      terminal.replyMessageId = record.replyMessageId ∧ terminal.replySha256 = record.replySha256)
      "Saved turn terminal identity does not match the final run"
    ensure (record.status = .completed → terminal.replyMessageId.isSome = true ∧ terminal.replySha256.isSome = true)
      "Completed turn is missing its committed reply identity"
  | none => ensure (record.status.isTerminal = false) "Saved terminal turn is missing its final identity"

/-- `turn::validate`. -/
def turnValidate (host : Host) (record : RunRecord) : Except String Unit :=
  match record.turn with
  | none => pure ()
  | some turn => do
    turnBound host record turn
    turnSealed record turn

/-! ## Receipts, edits and recovery -/

/-- `validate_receipts`: the identifiers of receipts are distinct. -/
def validateReceipts (receipts : List ActionReceipt) : Except String Unit := do
  ensure (receipts.length ≤ 50) "run action receipts exceed the call limit"
  let _ ← receipts.foldlM (fun ids receipt => do
    ensure (trimmedEmpty receipt.toolCallId = false ∧ trimmedEmpty receipt.name = false ∧ receipt.toolCallId ∉ ids ∧
      receipt.toolCallId.utf8ByteSize ≤ 2048 ∧ receipt.name.utf8ByteSize ≤ 2048 ∧
      receipt.argumentsPreview.utf8ByteSize ≤ 2048 ∧ (∀ text ∈ receipt.resultPreview, text.utf8ByteSize ≤ 2048) ∧
      receipt.startedAtMs ≠ 0) "invalid or duplicate run action receipt"
    ensure ((!receipt.started) = receipt.finishedAtMs.isSome ∧ (!receipt.started) = receipt.durationMs.isSome ∧
      (!receipt.started) = receipt.resultPreview.isSome ∧ (receipt.started = true → receipt.resultTruncated = false) ∧
      ∀ atMs ∈ receipt.finishedAtMs, receipt.startedAtMs ≤ atMs) "inconsistent run action receipt outcome"
    return receipt.toolCallId :: ids) ([] : List String)

def editValidate (record : RunRecord) : Except String Unit :=
  match record.editedInput with
  | none => pure ()
  | some edited =>
    ensure (edited.text.utf8ByteSize ≤ maxRunInputTextBytes ∧
      ¬(trimmedEmpty edited.text = true ∧ edited.attachmentIds = []) ∧
      edited.attachmentIds = record.input.attachmentIds ∧ edited.skill = record.input.skill ∧
      (record.source = .web ∨ record.source = .api) ∧ record.sourceRef = none ∧ record.parentRunId = none ∧
      record.recoveryOf = none ∧ record.systemFollowup = some false ∧ record.asyncHelper.isSome = false ∧
      record.helperCompletion.isSome = false) "Invalid saved owner queue edit"

/-- `records.iter().find(|r| r.id == id)`, and `by_id.get(id)`. -/
def byId (records : List RunRecord) (id : String) : Option RunRecord := records.find? fun r => r.id == id

/-- The root and the input that the continuation of a run keeps. -/
def RunRecord.origin (host : Host) (parent : RunRecord) : String × String :=
  match parent.turn with
  | some turn => (turn.binding.rootRunId, turn.binding.originalInputDigest)
  | none => (parent.id, host.digest parent.input)

/-- `u8::saturating_add(1)`. -/
def nextAttempt (n : ℕ) : ℕ := min (n + 1) 255

/-- The checks of a turn that continues another run. -/
def continues (host : Host) (record : RunRecord) (turn : RunTurn) (parent : RunRecord) : Except String Unit := do
  ensure (parent.agentId = record.agentId ∧ parent.sessionId = record.sessionId ∧
    record.recoveryAttempt = nextAttempt parent.recoveryAttempt ∧
    (parent.recovery.map (·.continuationRunId)) = some record.id)
    "Saved turn continuation does not match its original owner claim"
  ensure ((turn.binding.rootRunId, turn.binding.originalInputDigest) = parent.origin host)
    "Saved turn recovery changed its original input identity"

/-- The check of a turn against the run it continues, if that run is still held. -/
def continuationValidate (host : Host) (records : List RunRecord) (record : RunRecord) : Except String Unit :=
  match record.turn, record.recoveryOf with
  | some turn, some parentId =>
    match byId records parentId with
    | some parent => continues host record turn parent
    | none => pure ()
  | _, _ => pure ()

/-- Whether a held run is the continuation of a record. -/
def isContinuation (record child : RunRecord) : Prop :=
  child.agentId = record.agentId ∧ child.sessionId = record.sessionId ∧ child.recoveryOf = some record.id ∧
    child.recoveryAttempt = nextAttempt record.recoveryAttempt

instance decidableIsContinuation (record child : RunRecord) : Decidable (isContinuation record child) :=
  inferInstanceAs (Decidable (_ ∧ _))

def recoveryValidate (records : List RunRecord) (record : RunRecord) : Except String Unit :=
  match record.recovery with
  | none => pure ()
  | some recovery =>
    ensure (validDigest recovery.fingerprint = true ∧ recovery.reviewedAtMs ≠ 0 ∧
      trimmedEmpty recovery.continuationRunId = false ∧ recovery.continuationRunId ≠ record.id ∧
      record.recoveryAttempt < maxRecoveryAttempts ∧
      ∀ child ∈ byId records recovery.continuationRunId, isContinuation record child)
      "Invalid saved recovery continuation"

/-- The body of the loop of `RunLedger::validate`; `ids` are the identifiers of the records before. -/
def recordValidate (host : Host) (records : List RunRecord) (ids : List String) (record : RunRecord) :
    Except String (List String) := do
  turnValidate host record
  editValidate record
  continuationValidate host records record
  validateReceipts record.actionReceipts
  ensure (record.recoveryAttempt ≤ maxRecoveryAttempts ∧ (record.recoveryAttempt = 0 ↔ record.recoveryOf = none) ∧
    record.recoveryOf ≠ some record.id) "Invalid recovery attempt lineage"
  recoveryValidate records record
  ensure (trimmedEmpty record.id = false ∧ record.id ∉ ids) ("duplicate or empty run id in snapshot: " ++ record.id)
  ensure (trimmedEmpty record.agentId = false ∧ trimmedEmpty record.sessionId = false)
    ("run '" ++ record.id ++ "' has an empty agent or session id")
  ensure (∀ digest ∈ record.replySha256,
    record.status = .completed ∧ record.replyMessageId.isSome = true ∧ validDigest digest = true)
    "Invalid committed reply digest evidence"
  return record.id :: ids

/-! ## Helpers -/

/-- `async_helper::bounded_id`. -/
def boundedRunId (value : String) : Bool := !trimmedEmpty value && decide (value.utf8ByteSize ≤ 200)

/-- The check of a steer's key in `async_helper::validate`. -/
def validSteerKey (key : String) : Bool := !trimmedEmpty key && decide (key.utf8ByteSize ≤ 4096)

def validSteers (steers : List RunSteer) : Bool :=
  decide (steers.length ≤ 8) && (steers.all fun steer =>
    validSteerKey steer.idempotencyKey && !trimmedEmpty steer.text &&
      decide (steer.text.utf8ByteSize ≤ maxRunInputTextBytes) && steer.attachmentIds.isEmpty && steer.skill.isNone) &&
    decide (steers.map (·.idempotencyKey)).Nodup

/-- `HelperOptions::validate`. -/
def HelperOptions.valid (host : Host) (o : HelperOptions) : Bool :=
  (o.route.all fun route => route != "" && decide (route.utf8ByteSize ≤ 32) &&
    route.toList.all fun c => ('a' ≤ c && c ≤ 'z') || ('0' ≤ c && c ≤ '9') || c == '_' || c == '-') &&
  (o.limits.all fun l =>
    (l.maxToolTurns.all fun n => decide (1 ≤ n ∧ n ≤ 32)) && (l.timeoutMs.all fun n => decide (1000 ≤ n ∧ n ≤ 600000)) &&
      l.maxOutputTokens.all fun n => decide (1 ≤ n ∧ n ≤ 16384)) &&
  o.outputSchema.all fun schema => decide (schema.utf8ByteSize ≤ 8192) && host.outputContract schema

def AsyncHelperBounds.valid (b : AsyncHelperBounds) : Bool :=
  decide (b.maxToolTurns ≤ 32) && decide (b.maxDurationMs ≤ 600000) && decide (b.maxOutputTokensPerResponse ≤ 16384) &&
    b.maxAcceptedSteers == 8

/-- Identity and bounds of a helper, less the checks of its steers and of the launches before. -/
def helperIdentity (host : Host) (record : RunRecord) (helper : AsyncHelper) : Bool :=
  record.helperCompletion.isNone && record.source == .delegation && record.parentRunId == some helper.parentRunId &&
    boundedRunId helper.ownerAgentId && boundedRunId helper.ownerSessionId && boundedRunId helper.parentRunId &&
    helper.ownerAgentId != record.agentId && helper.parentRunId != record.id && !trimmedEmpty helper.launchKey &&
    decide (helper.launchKey.utf8ByteSize ≤ 4096) && helper.options.all (·.valid host) &&
    validDigest helper.launchFingerprint && helper.effectiveBounds.any (·.valid)

def steerKeys (record : RunRecord) (helper : AsyncHelper) : List String :=
  (helper.unconsumedSteers ++ record.pendingSteers).map (·.idempotencyKey) ++
    record.steeredKeys.map (·.idempotencyKey)

/-- The steers of a helper in the check of its bounds. -/
def helperSteers (record : RunRecord) (helper : AsyncHelper) : Bool :=
  validSteers helper.unconsumedSteers && validSteers record.pendingSteers &&
    decide (helper.unconsumedSteers.length + record.pendingSteers.length + record.steeredKeys.length ≤ 8)

/-- The launch parent of a helper, if it is still held. -/
def launchParentOk (records : List RunRecord) (record : RunRecord) (helper : AsyncHelper) : Bool :=
  match byId records helper.parentRunId with
  | some parent =>
    parent.agentId == helper.ownerAgentId && parent.sessionId == helper.ownerSessionId && parent.asyncHelper.isNone &&
      parent.helperCompletion.isNone
  | none => !(helper.completion.isUnresolved || !record.status.isTerminal)

/-- Whether a completion state fits the status of its run. -/
def completionStateOk (record : RunRecord) : HelperCompletionState → Bool
  | .awaitingResult _ => !record.status.isTerminal
  | .awaitingParent _ | .queued _ | .settled _ => record.status == .completed && record.replyMessageId.isSome
  | .reviewRequired reason _ | .suppressed reason _ => !trimmedEmpty reason && decide (reason.utf8ByteSize ≤ 1024)
  | .manual => true

/-- Whether a held completion run belongs to a helper. -/
def completionRunOk (record : RunRecord) (helper : AsyncHelper) (completion : RunRecord) : Bool :=
  (completion.helperCompletion.any fun origin =>
    origin.helperRunId == record.id && origin.launchParentRunId == helper.parentRunId) &&
    completion.agentId == helper.ownerAgentId && completion.sessionId == helper.ownerSessionId &&
    (match helper.completion with
    | .settled _ => completion.status.isTerminal
    | _ => true)

/-- The check of a completion identity against the records. -/
def completionIdentity (records : List RunRecord) (record : RunRecord) (helper : AsyncHelper) (completionId : String) :
    Except String Unit :=
  match helper.completion, byId records completionId with
  | .awaitingResult _, some _ | .awaitingParent _, some _ =>
    .error "an unadmitted helper completion identity is already used"
  | .queued _, none => .error "an unresolved helper completion is missing"
  | _, some completion =>
    ensure (completionRunOk record helper completion = true) "helper completion relationship is inconsistent"
  | _, none => pure ()

/-- The loop of `async_helper::validate` over the parents of a run.  Each round visits one more record, so as many
rounds as there are records and one more are enough. -/
def parentsEnd (records : List RunRecord) : ℕ → List String → Option String → Bool
  | _, _, none => true
  | 0, _, some _ => false
  | rounds + 1, visited, some id =>
    !visited.contains id &&
      parentsEnd records rounds (id :: visited) ((byId records id).bind (·.parentRunId))

/-- What the loop of `async_helper::validate` has seen: launches and completion identities. -/
structure Seen where
  launches : List (String × String)
  reservations : List String

/-- The check of the completion identity of a helper; it is reserved from then on. -/
def reserve (records : List RunRecord) (reservations : List String) (record : RunRecord) (helper : AsyncHelper) :
    Except String (List String) :=
  match helper.completion.runId with
  | none => pure reservations
  | some completionId => do
    ensure (boundedRunId completionId = true ∧ completionId ≠ record.id ∧ completionId ≠ helper.parentRunId ∧
      completionId ∉ reservations) "invalid or duplicate helper completion identity"
    completionIdentity records record helper completionId
    return completionId :: reservations

/-- The body of the loop of `async_helper::validate` for a helper. -/
def helperValidate (host : Host) (records : List RunRecord) (seen : Seen) (record : RunRecord) (helper : AsyncHelper) :
    Except String Seen := do
  ensure (helperIdentity host record helper = true ∧ (helper.ownerAgentId, helper.launchKey) ∉ seen.launches ∧
    helperSteers record helper = true) ("invalid asynchronous helper identity or bounds: " ++ record.id)
  ensure ((∀ key ∈ steerKeys record helper, validSteerKey key = true) ∧ (steerKeys record helper).Nodup)
    "asynchronous helper steer identities overlap"
  ensure (launchParentOk records record helper = true)
    ("asynchronous helper has an invalid launch parent: " ++ record.id)
  ensure (completionStateOk record helper.completion = true)
    ("asynchronous helper completion state disagrees with its run: " ++ record.id)
  let reservations ← reserve records seen.reservations record helper
  ensure (parentsEnd records (records.length + 2) [record.id] record.parentRunId = true)
    "asynchronous helper parent cycle"
  return { launches := (helper.ownerAgentId, helper.launchKey) :: seen.launches, reservations }

/-- Whether a run is the completion of a helper that is still held. -/
def isSourceOf (record : RunRecord) (origin : HelperCompletion) (source : RunRecord) : Bool :=
  source.asyncHelper.any fun helper =>
    helper.ownerAgentId == record.agentId && helper.ownerSessionId == record.sessionId &&
      helper.parentRunId == origin.launchParentRunId && helper.completion.runId == some record.id

def originValidate (records : List RunRecord) (record : RunRecord) : Except String Unit :=
  match record.helperCompletion with
  | none => pure ()
  | some origin => do
    ensure (record.source = .delegation ∧ boundedRunId origin.helperRunId = true ∧
      boundedRunId origin.launchParentRunId = true ∧ origin.helperRunId ≠ record.id ∧
      origin.launchParentRunId ≠ record.id ∧ record.parentRunId = some origin.launchParentRunId)
      "invalid helper completion origin"
    match byId records origin.helperRunId with
    | some source =>
      ensure (isSourceOf record origin source = true) "helper completion source relationship is missing or foreign"
    | none =>
      ensure (record.status.isTerminal = true ∧ record.mirrored = true)
        "helper completion source relationship is missing or foreign"

/-- The first half of the body of the loop of `async_helper::validate`. -/
def launchValidate (host : Host) (records : List RunRecord) (seen : Seen) (record : RunRecord) : Except String Seen :=
  match record.asyncHelper with
  | none => pure seen
  | some helper => helperValidate host records seen record helper

/-- The body of the loop of `async_helper::validate`. -/
def relationsValidate (host : Host) (records : List RunRecord) (seen : Seen) (record : RunRecord) :
    Except String Seen := do
  let seen ← launchValidate host records seen record
  originValidate records record
  return seen

def validate (host : Host) (records : List RunRecord) : Except String Unit := do
  let _ ← records.foldlM (recordValidate host records) []
  let _ ← records.foldlM (relationsValidate host records) { launches := [], reservations := [] }

/-! ## Accepted lists -/

variable {host : Host} {records : List RunRecord} {record : RunRecord}

structure RecordAccepted (host : Host) (records : List RunRecord) (record : RunRecord) : Prop where
  turn_ok : turnValidate host record = .ok ()
  edit_ok : editValidate record = .ok ()
  continuation_ok : continuationValidate host records record = .ok ()
  receipts_ok : validateReceipts record.actionReceipts = .ok ()
  lineage : record.recoveryAttempt ≤ maxRecoveryAttempts ∧ (record.recoveryAttempt = 0 ↔ record.recoveryOf = none) ∧
    record.recoveryOf ≠ some record.id
  recovery_ok : recoveryValidate records record = .ok ()
  id_ne : trimmedEmpty record.id = false
  owner_ne : trimmedEmpty record.agentId = false ∧ trimmedEmpty record.sessionId = false
  reply_ok : ∀ digest ∈ record.replySha256,
    record.status = .completed ∧ record.replyMessageId.isSome = true ∧ validDigest digest = true

structure HelperAccepted (host : Host) (records : List RunRecord) (record : RunRecord) (helper : AsyncHelper) : Prop where
  identity : helperIdentity host record helper = true
  steers : helperSteers record helper = true
  keys : (∀ key ∈ steerKeys record helper, validSteerKey key = true) ∧ (steerKeys record helper).Nodup
  parent_ok : launchParentOk records record helper = true
  state_ok : completionStateOk record helper.completion = true
  completion_ok : ∀ id, helper.completion.runId = some id →
    boundedRunId id = true ∧ id ≠ record.id ∧ id ≠ helper.parentRunId ∧
      completionIdentity records record helper id = .ok ()
  parents_end : parentsEnd records (records.length + 2) [record.id] record.parentRunId = true

def RunRecord.launch (r : RunRecord) : Option (String × String) :=
  r.asyncHelper.map fun helper => (helper.ownerAgentId, helper.launchKey)

def RunRecord.reservation (r : RunRecord) : Option String := r.asyncHelper.bind fun helper => helper.completion.runId

structure Accepted (host : Host) (records : List RunRecord) : Prop where
  record_ok : ∀ r ∈ records, RecordAccepted host records r
  ids : (records.map (·.id)).Nodup
  helper_ok : ∀ r ∈ records, ∀ helper, r.asyncHelper = some helper → HelperAccepted host records r helper
  launches : (records.filterMap (·.launch)).Nodup
  reservations : (records.filterMap (·.reservation)).Nodup
  origin_ok : ∀ r ∈ records, originValidate records r = .ok ()

theorem recordValidate_eq_ok {ids ids' : List String} :
    recordValidate host records ids record = .ok ids' ↔
      RecordAccepted host records record ∧ record.id ∉ ids ∧ ids' = record.id :: ids := by
  simp only [recordValidate, bind_eq_ok, ensure_eq_ok]
  constructor
  · rintro ⟨_, h1, _, h2, _, h3, _, h4, _, h5, _, h6, _, ⟨h7, hnew⟩, _, h8, _, h9, heq⟩
    cases heq
    exact ⟨⟨h1, h2, h3, h4, h5, h6, h7, h8, h9⟩, hnew, rfl⟩
  · rintro ⟨⟨h1, h2, h3, h4, h5, h6, h7, h8, h9⟩, hnew, rfl⟩
    exact ⟨(), h1, (), h2, (), h3, (), h4, (), h5, (), h6, (), ⟨h7, hnew⟩, (), h8, (), h9, rfl⟩

variable (host records) in
theorem foldlM_recordValidate (l : List RunRecord) (ids : List String) :
    (∃ out, l.foldlM (recordValidate host records) ids = .ok out) ↔
      (∀ r ∈ l, RecordAccepted host records r) ∧ (l.map (·.id)).Nodup ∧ ∀ r ∈ l, r.id ∉ ids := by
  induction l generalizing ids with
  | nil => simp [pure, Except.pure]
  | cons r l ih =>
    simp only [List.foldlM_cons, bind_eq_ok, recordValidate_eq_ok, List.map_cons, List.nodup_cons, List.mem_cons,
      forall_eq_or_imp]
    constructor
    · rintro ⟨out, _, ⟨hr, hnew, rfl⟩, hrest⟩
      obtain ⟨hok, hnodup, hids⟩ := (ih _).mp ⟨out, hrest⟩
      refine ⟨⟨hr, hok⟩, ⟨?_, hnodup⟩, hnew, ?_⟩
      · intro hmem
        obtain ⟨r', hr', heq⟩ := List.mem_map.mp hmem
        exact hids r' hr' (heq ▸ List.mem_cons_self)
      · intro r' hr' hmem
        exact hids r' hr' (List.mem_cons_of_mem _ hmem)
    · rintro ⟨⟨hr, hok⟩, ⟨hfirst, hnodup⟩, hnew, hids⟩
      have hids' : ∀ r' ∈ l, r'.id ∉ r.id :: ids := by
        intro r' hr' hmem
        rcases List.mem_cons.mp hmem with heq | hmem
        · exact hfirst (List.mem_map.mpr ⟨r', hr', heq⟩)
        · exact hids r' hr' hmem
      obtain ⟨out, hout⟩ := (ih (r.id :: ids)).mpr ⟨hok, hnodup, hids'⟩
      exact ⟨out, _, ⟨hr, hnew, rfl⟩, hout⟩

/-- What the second loop has seen after one more record. -/
def Seen.after (seen : Seen) (r : RunRecord) : Seen :=
  { launches := r.launch.toList ++ seen.launches, reservations := r.reservation.toList ++ seen.reservations }

theorem reserve_eq_ok {reservations reservations' : List String} {helper : AsyncHelper} :
    reserve records reservations record helper = .ok reservations' ↔
      (∀ id, helper.completion.runId = some id → boundedRunId id = true ∧ id ≠ record.id ∧ id ≠ helper.parentRunId ∧
        completionIdentity records record helper id = .ok ()) ∧
      (∀ id ∈ helper.completion.runId, id ∉ reservations) ∧
      reservations' = helper.completion.runId.toList ++ reservations := by
  unfold reserve
  cases hid : helper.completion.runId with
  | none =>
    simp only [pure, Except.pure, Except.ok.injEq, reduceCtorEq, Option.mem_def, Option.toList_none, List.nil_append,
      false_implies, implies_true, true_and]
    exact eq_comm
  | some id =>
    simp only [bind_eq_ok, ensure_eq_ok]
    constructor
    · rintro ⟨_, ⟨hb, hne, hne', hfree⟩, _, hident, heq⟩
      cases heq
      refine ⟨?_, ?_, rfl⟩
      · rintro _ ⟨⟩
        exact ⟨hb, hne, hne', hident⟩
      · rintro _ ⟨⟩
        exact hfree
    · rintro ⟨hcompletion, hfree, rfl⟩
      obtain ⟨hb, hne, hne', hident⟩ := hcompletion id rfl
      exact ⟨(), ⟨hb, hne, hne', hfree id rfl⟩, (), hident, rfl⟩

theorem launchValidate_eq_ok {seen seen' : Seen} :
    launchValidate host records seen record = .ok seen' ↔
      (∀ helper, record.asyncHelper = some helper → HelperAccepted host records record helper) ∧
        (∀ k ∈ record.launch, k ∉ seen.launches) ∧ (∀ k ∈ record.reservation, k ∉ seen.reservations) ∧
        seen' = seen.after record := by
  unfold launchValidate
  cases hhelper : record.asyncHelper with
  | none =>
    simp only [pure, Except.pure, Seen.after, RunRecord.launch, RunRecord.reservation, hhelper, Option.map_none,
      Option.bind_none, Option.toList_none, List.nil_append, Except.ok.injEq, reduceCtorEq, Option.mem_def,
      false_implies, implies_true, true_and]
    exact eq_comm
  | some helper =>
    have hlaunch : record.launch = some (helper.ownerAgentId, helper.launchKey) := by
      rw [RunRecord.launch, hhelper]
      rfl
    have hreserved : record.reservation = helper.completion.runId := by
      rw [RunRecord.reservation, hhelper]
      rfl
    simp only [helperValidate, bind_eq_ok, ensure_eq_ok, reserve_eq_ok, Seen.after, hlaunch, hreserved]
    constructor
    · rintro ⟨_, ⟨h1, hnew, h2⟩, _, h3, _, h4, _, h5, _, ⟨h6, hfree, rfl⟩, _, h7, heq⟩
      cases heq
      refine ⟨?_, ?_, hfree, rfl⟩
      · rintro _ ⟨⟩
        exact ⟨h1, h2, h3, h4, h5, h6, h7⟩
      · rintro _ ⟨⟩
        exact hnew
    · rintro ⟨hhelper, hnew, hfree, rfl⟩
      obtain ⟨h1, h2, h3, h4, h5, h6, h7⟩ := hhelper helper rfl
      exact ⟨(), ⟨h1, hnew _ rfl, h2⟩, (), h3, (), h4, (), h5, _, ⟨h6, hfree, rfl⟩, (), h7, rfl⟩

theorem relationsValidate_eq_ok {seen seen' : Seen} :
    relationsValidate host records seen record = .ok seen' ↔
      ((∀ helper, record.asyncHelper = some helper → HelperAccepted host records record helper) ∧
        originValidate records record = .ok ()) ∧ (∀ k ∈ record.launch, k ∉ seen.launches) ∧
        (∀ k ∈ record.reservation, k ∉ seen.reservations) ∧ seen' = seen.after record := by
  simp only [relationsValidate, bind_eq_ok, launchValidate_eq_ok]
  constructor
  · rintro ⟨_, ⟨h1, h2, h3, rfl⟩, _, h4, heq⟩
    cases heq
    exact ⟨⟨h1, h4⟩, h2, h3, rfl⟩
  · rintro ⟨⟨h1, h4⟩, h2, h3, rfl⟩
    exact ⟨_, ⟨h1, h2, h3, rfl⟩, (), h4, rfl⟩

theorem distinct_cons {κ : Type} {f : RunRecord → Option κ} {r : RunRecord} {l : List RunRecord} {seen : List κ} :
    ((r :: l).filterMap f).Nodup ∧ (∀ k ∈ (r :: l).filterMap f, k ∉ seen) ↔
      (∀ k ∈ f r, k ∉ seen) ∧ (l.filterMap f).Nodup ∧ ∀ k ∈ l.filterMap f, k ∉ (f r).toList ++ seen := by
  cases hf : f r with
  | none =>
    rw [List.filterMap_cons_none hf]
    simp
  | some k =>
    rw [List.filterMap_cons_some hf, List.nodup_cons]
    simp only [List.mem_cons, forall_eq_or_imp, Option.mem_def, Option.some.injEq, forall_eq', Option.toList_some,
      List.cons_append, List.nil_append, not_or]
    constructor
    · rintro ⟨⟨hk, hnodup⟩, hnew, hrest⟩
      exact ⟨hnew, hnodup, fun k' hk' => ⟨fun heq => hk (heq ▸ hk'), hrest k' hk'⟩⟩
    · rintro ⟨hnew, hnodup, hrest⟩
      exact ⟨⟨fun hk => (hrest k hk).1 rfl, hnodup⟩, hnew, fun k' hk' => (hrest k' hk').2⟩

variable (host records) in
theorem foldlM_relationsValidate (l : List RunRecord) (seen : Seen) :
    (∃ out, l.foldlM (relationsValidate host records) seen = .ok out) ↔
      (∀ r ∈ l, (∀ helper, r.asyncHelper = some helper → HelperAccepted host records r helper) ∧
        originValidate records r = .ok ()) ∧
      ((l.filterMap (·.launch)).Nodup ∧ ∀ k ∈ l.filterMap (·.launch), k ∉ seen.launches) ∧
      ((l.filterMap (·.reservation)).Nodup ∧ ∀ k ∈ l.filterMap (·.reservation), k ∉ seen.reservations) := by
  induction l generalizing seen with
  | nil => simp [pure, Except.pure]
  | cons r l ih =>
    rw [distinct_cons, distinct_cons, List.forall_mem_cons]
    have hih := ih (seen.after r)
    simp only [Seen.after] at hih
    constructor
    · rintro ⟨out, hout⟩
      simp only [List.foldlM_cons, bind_eq_ok, relationsValidate_eq_ok] at hout
      obtain ⟨_, ⟨hr, hlaunch, hreserved, rfl⟩, hout⟩ := hout
      obtain ⟨hrest, hlaunches, hreservations⟩ := hih.mp ⟨out, hout⟩
      exact ⟨⟨hr, hrest⟩, ⟨hlaunch, hlaunches⟩, hreserved, hreservations⟩
    · rintro ⟨⟨hr, hrest⟩, ⟨hlaunch, hlaunches⟩, hreserved, hreservations⟩
      obtain ⟨out, hout⟩ := hih.mpr ⟨hrest, hlaunches, hreservations⟩
      refine ⟨out, ?_⟩
      simp only [List.foldlM_cons, bind_eq_ok, relationsValidate_eq_ok]
      exact ⟨_, ⟨hr, hlaunch, hreserved, rfl⟩, hout⟩

theorem validate_eq_ok : validate host records = .ok () ↔ Accepted host records := by
  have hfirst := foldlM_recordValidate host records records []
  have hsecond := foldlM_relationsValidate host records records
    { launches := [], reservations := [] }
  simp only [validate, bind_eq_ok]
  constructor
  · rintro ⟨out, hout, out', hout', _⟩
    obtain ⟨hrecord, hids, _⟩ := hfirst.mp ⟨out, hout⟩
    obtain ⟨hrelations, ⟨hlaunches, _⟩, hreservations, _⟩ := hsecond.mp ⟨out', hout'⟩
    exact ⟨hrecord, hids, fun r hr => (hrelations r hr).1, hlaunches, hreservations, fun r hr => (hrelations r hr).2⟩
  · intro a
    obtain ⟨out, hout⟩ := hfirst.mpr ⟨a.record_ok, a.ids, by simp⟩
    obtain ⟨out', hout'⟩ := hsecond.mpr
      ⟨fun r hr => ⟨a.helper_ok r hr, a.origin_ok r hr⟩, ⟨a.launches, by simp⟩, a.reservations, by simp⟩
    exact ⟨out, hout, out', hout', rfl⟩

end AnimaCore.Runs
