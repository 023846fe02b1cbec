import AnimaCore.Capability
import AnimaCore.Lib.Machine
import AnimaCore.Lib.Table

/-!
# AnimaCore.StandingIntents — standing intentions of an owner

`standing_intents.rs`: an owner leaves instructions that fire on later turns of a conversation.  The registry holds the
intentions, the changes made to them (each with the image before and after it, so that it can be undone) and one
admission for each run that an intention fired on.

* Every method returns the registry it leaves behind next to its answer: a method that fails has still dropped the
  changes it reclaimed.
* `UnicodeTables` is what the matching of a phrase reads of Unicode; nothing depends on what the tables say.
* `fresh` is the identifier that `Uuid::new_v4` returns in the call.
* `call` is one call on a registry, `logged` a run of calls with their answers.
-/

namespace AnimaCore.StandingIntents

open Lib

/-! ## Bounds -/

def maxIntents : ℕ := 64

def maxChanges : ℕ := 256

def maxAdmissions : ℕ := 2048

def maxInstructionBytes : ℕ := 2048

def maxFires : ℕ := 32

def maxLifetimeMs : ℕ := 366 * 24 * 60 * 60 * 1000

def maxTurnBytes : ℕ := 65536

/-- `u64::MAX`. -/
def u64Max : ℕ := 2 ^ 64 - 1

def saturatingAdd (a b : ℕ) : ℕ := min (a + b) u64Max

/-! ## Records -/

inductive SenderScope
  | owner
  | localOwner
  | telegramOwner
  | discordOwner
  deriving DecidableEq, Repr

inductive OwnerSender
  | local
  | telegram
  | discord
  deriving DecidableEq, Repr

structure IntentScope where
  sessionId : Option String
  sender : SenderScope
  deriving DecidableEq, Repr

inductive ConversationEvent
  | started
  | message
  deriving DecidableEq, Repr

inductive IntentCondition
  | keyword (phrase : String)
  | event (event : ConversationEvent)
  deriving DecidableEq, Repr

structure IntentSpec where
  scope : IntentScope
  condition : IntentCondition
  instruction : String
  expiresAtMs : ℕ
  cooldownMs : ℕ
  maxFires : ℕ
  deriving DecidableEq, Repr

structure IntentFire where
  runId : String
  atMs : ℕ
  deriving DecidableEq, Repr

structure StandingIntent where
  id : String
  agentId : String
  spec : IntentSpec
  revision : ℕ
  createdAtMs : ℕ
  updatedAtMs : ℕ
  cancelled : Bool
  fires : List IntentFire
  deriving DecidableEq, Repr

structure IntentChange where
  id : String
  before : Option StandingIntent
  after : StandingIntent
  undone : Bool
  deriving DecidableEq, Repr

structure IntentAdmission where
  agentId : String
  runId : String
  retryKey : Option String
  intentIds : List String
  deriving DecidableEq, Repr

structure StandingIntentRegistry where
  intents : Table String StandingIntent
  changes : Table String IntentChange
  admissions : List IntentAdmission

structure OwnerTurn where
  agentId : String
  sessionId : String
  sender : OwnerSender
  runId : String
  retryKey : Option String
  text : String
  conversationStarted : Bool
  nowMs : ℕ
  deriving DecidableEq, Repr

structure IntentMatch where
  intentId : String
  instruction : String
  deriving DecidableEq, Repr

inductive IntentError
  | registryInvalidOrFull
  | historyInvalid
  | historyFull
  | intentionChanged
  | updateInvalid
  | revisionExhausted
  | changeMissing
  | undoRefused
  | identityInvalid
  | admissionsFull
  | intentionRevisionExhausted
  deriving DecidableEq, Repr

def IntentError.text : IntentError → String
  | .registryInvalidOrFull => "Invalid or full standing intention registry"
  | .historyInvalid => "Standing intention change history is full or invalid"
  | .historyFull => "Standing intention change history is full"
  | .intentionChanged => "Standing intention changed"
  | .updateInvalid => "Invalid intention update"
  | .revisionExhausted => "Revision exhausted"
  | .changeMissing => "Change already undone or missing"
  | .undoRefused => "Intention changed after this edit; Undo refused"
  | .identityInvalid => "Invalid intention admission identity"
  | .admissionsFull => "Standing intention admission history is full"
  | .intentionRevisionExhausted => "Intention revision exhausted"

/-! ## Checks -/

def boundedId (s : String) : Bool :=
  !trimmedEmpty s && decide (s.utf8ByteSize ≤ 256) && !s.toList.any isControl

/-- The check of a keyword in `spec_valid`. -/
def IntentCondition.valid : IntentCondition → Bool
  | .keyword phrase => !trimmedEmpty phrase && decide (phrase.utf8ByteSize ≤ 128) && !phrase.toList.any isControl
  | .event _ => true

def specValid (s : IntentSpec) : Bool :=
  s.scope.sessionId.all boundedId && !trimmedEmpty s.instruction &&
    decide (s.instruction.utf8ByteSize ≤ maxInstructionBytes) && decide (0 < s.maxFires) &&
    decide (s.maxFires ≤ maxFires) && decide (s.cooldownMs ≤ maxLifetimeMs) && s.condition.valid

/-- `record_valid`; a set of run identifiers is as long as their list iff they are distinct. -/
def recordValid (r : StandingIntent) : Bool :=
  boundedId r.id && boundedId r.agentId && specValid r.spec && decide (0 < r.revision) &&
    decide (r.createdAtMs ≤ r.updatedAtMs) && decide (r.createdAtMs < r.spec.expiresAtMs) &&
    decide (r.spec.expiresAtMs ≤ saturatingAdd r.updatedAtMs maxLifetimeMs) &&
    decide (r.fires.length ≤ r.spec.maxFires) &&
    (r.fires.all fun f =>
      boundedId f.runId && decide (r.createdAtMs ≤ f.atMs) && decide (f.atMs < r.spec.expiresAtMs)) &&
    decide ((r.fires.map (·.atMs)).IsChain (· ≤ ·)) && decide (r.fires.map (·.runId)).Nodup

/-! ## Phrases -/

/-- What the source reads of Unicode: `str::to_lowercase` and `char::is_alphanumeric`. -/
structure UnicodeTables where
  toLowercase : String → String
  isAlphanumeric : Char → Bool

def normalize (unicode : UnicodeTables) (text : String) : String :=
  let words := (text.toList.splitOnP isWhitespace).filter fun word => !word.isEmpty
  unicode.toLowercase (String.ofList ([' '].intercalate words))

/-- `str::match_indices`: the disjoint occurrences of `phrase` from the left, each as the text before and the text after
it.  `skip` characters still belong to the occurrence found last. -/
def matchIndices (phrase : List Char) (before : List Char) (skip : ℕ) : List Char → List (List Char × List Char)
  | [] => if skip = 0 ∧ phrase = [] then [(before, [])] else []
  | c :: rest =>
    if skip = 0 ∧ phrase.isPrefixOf (c :: rest) = true then
      (before, (c :: rest).drop phrase.length) :: matchIndices phrase (before ++ [c]) (phrase.length - 1) rest
    else matchIndices phrase (before ++ [c]) (skip - 1) rest

def phraseMatches (unicode : UnicodeTables) (text phrase : String) : Bool :=
  let text := (normalize unicode text).toList
  let phrase := (normalize unicode phrase).toList
  (matchIndices phrase [] 0 text).any fun (before, after) =>
    before.getLast?.all (fun c => !unicode.isAlphanumeric c) && after.head?.all fun c => !unicode.isAlphanumeric c

/-! ## The registry -/

namespace StandingIntentRegistry

/-- `StandingIntentRegistry::default`. -/
def empty : StandingIntentRegistry := { intents := ∅, changes := ∅, admissions := [] }

/-- What `validate` refuses in a change image. -/
def changeValid (id : String) (c : IntentChange) : Bool :=
  id == c.id && boundedId id && recordValid c.after &&
    c.before.all fun b => recordValid b && b.id == c.after.id && b.agentId == c.after.agentId

/-- What `validate` refuses in an admission on its own. -/
def admissionValid (a : IntentAdmission) : Bool :=
  boundedId a.agentId && boundedId a.runId && a.retryKey.all boundedId && !a.intentIds.isEmpty &&
    decide (a.intentIds.length ≤ 3) && a.intentIds.all boundedId && decide a.intentIds.Nodup

/-- The loop of `validate` over the admissions, with the sets `runs` and `keys` of what it has seen. -/
def admissionsValid : List IntentAdmission → KeySet (String × String) → KeySet (String × String) → Bool
  | [], _, _ => true
  | a :: rest, runs, keys =>
    admissionValid a && !runs.contains (a.agentId, a.runId) &&
      (match a.retryKey with
      | some k => !keys.contains (a.agentId, k) &&
          admissionsValid rest (runs.insert (a.agentId, a.runId)) (keys.insert (a.agentId, k))
      | none => admissionsValid rest (runs.insert (a.agentId, a.runId)) keys)

def validate (self : StandingIntentRegistry) : Except String Unit := do
  ensure (self.intents.size ≤ maxIntents ∧ self.changes.size ≤ maxChanges ∧ self.admissions.length ≤ maxAdmissions)
    "Standing intention history exceeds its bound"
  ensure ((self.intents.toList.all fun entry => entry.1 == entry.2.id && recordValid entry.2) = true)
    "Invalid standing intention"
  ensure ((self.changes.toList.all fun entry => changeValid entry.1 entry.2) = true)
    "Invalid standing intention change image"
  ensure (admissionsValid self.admissions ∅ ∅ = true) "Invalid standing intention admission"

/-- What `Undo` accepts: the change is not undone and its image is the current intention. -/
def undoable (self : StandingIntentRegistry) (change : IntentChange) : Bool :=
  !change.undone && decide (self.intents[change.after.id]? = some change.after)

/-- The `retain` of `commit_change`. -/
def reclaim (self : StandingIntentRegistry) : StandingIntentRegistry :=
  { self with changes := self.changes.filter fun _ change => self.undoable change }

def commitChange (self : StandingIntentRegistry) (fresh : Uuid) (before : Option StandingIntent)
    (after : StandingIntent) : Except IntentError (StandingIntent × IntentChange) × StandingIntentRegistry :=
  if recordValid after = false then (.error .historyInvalid, self)
  else
    let kept := if maxChanges ≤ self.changes.size then self.reclaim else self
    if maxChanges ≤ kept.changes.size then (.error .historyFull, kept)
    else
      let change : IntentChange := { id := uuidText fresh, before, after, undone := false }
      (.ok (after, change),
        { kept with intents := kept.intents.insert after.id after, changes := kept.changes.insert change.id change })

def create (self : StandingIntentRegistry) (fresh : Uuid) (id agent : String) (spec : IntentSpec) (now : ℕ) :
    Except IntentError (StandingIntent × IntentChange) × StandingIntentRegistry :=
  if maxIntents ≤ self.intents.size ∨ id ∈ self.intents ∨ boundedId id = false ∨ boundedId agent = false ∨
      specValid spec = false ∨ spec.expiresAtMs ≤ now ∨ saturatingAdd now maxLifetimeMs < spec.expiresAtMs then
    (.error .registryInvalidOrFull, self)
  else
    self.commitChange fresh none
      { id, agentId := agent, spec, revision := 1, createdAtMs := now, updatedAtMs := now, cancelled := false
        fires := [] }

/-- The intention a caller means by its revision, if it is still current and not cancelled. -/
def current (self : StandingIntentRegistry) (id : String) (revision : ℕ) : Option StandingIntent :=
  self.intents[id]?.filter fun r => r.revision == revision && !r.cancelled

/-- `StandingIntentRegistry::update`; a number of fires is cast to `u32`. -/
def update (self : StandingIntentRegistry) (fresh : Uuid) (id : String) (revision : ℕ) (spec : IntentSpec) (now : ℕ) :
    Except IntentError (StandingIntent × IntentChange) × StandingIntentRegistry :=
  match self.current id revision with
  | none => (.error .intentionChanged, self)
  | some before =>
    if specValid spec = false ∨ spec.expiresAtMs ≤ now ∨ saturatingAdd now maxLifetimeMs < spec.expiresAtMs ∨
        spec.maxFires < before.fires.length % 2 ^ 32 ∨ ∃ f ∈ before.fires, spec.expiresAtMs ≤ f.atMs then
      (.error .updateInvalid, self)
    else
      match checkedAdd 64 before.revision 1 with
      | none => (.error .revisionExhausted, self)
      | some revision =>
        self.commitChange fresh (some before) { before with spec, revision, updatedAtMs := max now before.updatedAtMs }

def cancel (self : StandingIntentRegistry) (fresh : Uuid) (id : String) (revision : ℕ) (now : ℕ) :
    Except IntentError (StandingIntent × IntentChange) × StandingIntentRegistry :=
  match self.current id revision with
  | none => (.error .intentionChanged, self)
  | some before =>
    match checkedAdd 64 before.revision 1 with
    | none => (.error .revisionExhausted, self)
    | some revision =>
      self.commitChange fresh (some before)
        { before with cancelled := true, revision, updatedAtMs := max now before.updatedAtMs }

def undo (self : StandingIntentRegistry) (id : String) (now : ℕ) :
    Except IntentError (Option StandingIntent) × StandingIntentRegistry :=
  match self.changes[id]?.filter fun c => !c.undone with
  | none => (.error .changeMissing, self)
  | some change =>
    if self.intents[change.after.id]? ≠ some change.after then (.error .undoRefused, self)
    else
      let changes := self.changes.modify id fun c => { c with undone := true }
      match change.before with
      | some before =>
        match checkedAdd 64 change.after.revision 1 with
        | none => (.error .revisionExhausted, self)
        | some revision =>
          let restored := { before with revision, updatedAtMs := max now change.after.updatedAtMs }
          (.ok (some restored), { self with intents := self.intents.insert restored.id restored, changes })
      | none => (.ok none, { self with intents := self.intents.erase change.after.id, changes })

end StandingIntentRegistry

/-! ## Admission of a turn -/

def SenderScope.takes : SenderScope → OwnerSender → Bool
  | .owner, _ => true
  | .localOwner, sender => sender == .local
  | .telegramOwner, sender => sender == .telegram
  | .discordOwner, sender => sender == .discord

def IntentCondition.holds (unicode : UnicodeTables) : IntentCondition → OwnerTurn → Bool
  | .keyword phrase, turn => phraseMatches unicode turn.text phrase
  | .event .message, _ => true
  | .event .started, turn => turn.conversationStarted

/-- The filter of `admit`: the intentions that fire on a turn. -/
def StandingIntent.firesOn (unicode : UnicodeTables) (r : StandingIntent) (turn : OwnerTurn) : Bool :=
  r.agentId == turn.agentId && !r.cancelled && decide (r.createdAtMs ≤ turn.nowMs) &&
    decide (turn.nowMs < r.spec.expiresAtMs) && decide (r.fires.length < r.spec.maxFires) &&
    r.fires.getLast?.all (fun f => decide (saturatingAdd f.atMs r.spec.cooldownMs ≤ turn.nowMs)) &&
    r.spec.scope.sessionId.all (fun id => id == turn.sessionId) && r.spec.scope.sender.takes turn.sender &&
    r.spec.condition.holds unicode turn

def StandingIntent.fire (r : StandingIntent) (turn : OwnerTurn) : StandingIntent :=
  { r with fires := r.fires ++ [{ runId := turn.runId, atMs := turn.nowMs }], revision := r.revision + 1
           updatedAtMs := max turn.nowMs r.updatedAtMs }

namespace StandingIntentRegistry

/-- The rows of `admit`: at most three intentions that fire on the turn, oldest first. -/
def rows (self : StandingIntentRegistry) (unicode : UnicodeTables) (turn : OwnerTurn) : List (ℕ × String) :=
  let rows := ((self.intents.toList.map Prod.snd).filter fun r => r.firesOn unicode turn).map fun r =>
    (r.createdAtMs, r.id)
  (rows.mergeSort fun a b => (compare a b).isLE).take 3

/-- One round of the loop of `admit`: the intention `id` fires; every row names one. -/
def fireRow (turn : OwnerTurn) (acc : Table String StandingIntent × List IntentMatch) (id : String) :
    Table String StandingIntent × List IntentMatch :=
  match acc.1[id]? with
  | none => acc
  | some r => (acc.1.insert id (r.fire turn), acc.2 ++ [{ intentId := id, instruction := r.spec.instruction }])

/-- Whether the run of a turn, or its retry key, was admitted before. -/
def admittedBefore (self : StandingIntentRegistry) (turn : OwnerTurn) : Bool :=
  self.admissions.any fun a =>
    a.agentId == turn.agentId && (a.runId == turn.runId || (turn.retryKey.isSome && a.retryKey == turn.retryKey))

/-- `StandingIntentRegistry::admit`. -/
def admitTurn (self : StandingIntentRegistry) (unicode : UnicodeTables) (turn : OwnerTurn) :
    Except IntentError (List IntentMatch) × StandingIntentRegistry :=
  if boundedId turn.agentId = false ∨ boundedId turn.runId = false ∨ boundedId turn.sessionId = false ∨
      turn.retryKey.all boundedId = false then
    (.error .identityInvalid, self)
  else if maxTurnBytes < turn.text.utf8ByteSize ∨ self.admittedBefore turn = true then (.ok [], self)
  else
    let ids := (self.rows unicode turn).map Prod.snd
    if ids = [] then (.ok [], self)
    else if maxAdmissions ≤ self.admissions.length then (.error .admissionsFull, self)
    else if ∃ id ∈ ids, ∃ r ∈ self.intents[id]?, r.revision = u64Max then (.error .intentionRevisionExhausted, self)
    else
      let (intents, matched) := ids.foldl (fireRow turn) (self.intents, [])
      (.ok matched,
        { self with
          intents
          admissions := self.admissions ++
            [{ agentId := turn.agentId, runId := turn.runId, retryKey := turn.retryKey
               intentIds := matched.map (·.intentId) }] })

end StandingIntentRegistry

/-! ## Calls one after the other -/

inductive IntentCall
  | create (fresh : Uuid) (id agent : String) (spec : IntentSpec) (now : ℕ)
  | update (fresh : Uuid) (id : String) (revision : ℕ) (spec : IntentSpec) (now : ℕ)
  | cancel (fresh : Uuid) (id : String) (revision : ℕ) (now : ℕ)
  | undo (id : String) (now : ℕ)
  | turn (turn : OwnerTurn)
  deriving DecidableEq

inductive IntentReply
  | changed (intent : StandingIntent) (change : IntentChange)
  | restored (intent : Option StandingIntent)
  | matched (found : List IntentMatch)
  | failed (error : IntentError)
  deriving DecidableEq

namespace StandingIntentRegistry

def changeReply : Except IntentError (StandingIntent × IntentChange) → IntentReply
  | .ok (intent, change) => .changed intent change
  | .error e => .failed e

/-- The answer to an `Undo`. -/
def undoReply : Except IntentError (Option StandingIntent) → IntentReply
  | .ok intent => .restored intent
  | .error e => .failed e

def turnReply : Except IntentError (List IntentMatch) → IntentReply
  | .ok found => .matched found
  | .error e => .failed e

def call (unicode : UnicodeTables) (self : StandingIntentRegistry) : IntentCall → IntentReply × StandingIntentRegistry
  | .create fresh id agent spec now =>
    let (answer, next) := self.create fresh id agent spec now
    (changeReply answer, next)
  | .update fresh id revision spec now =>
    let (answer, next) := self.update fresh id revision spec now
    (changeReply answer, next)
  | .cancel fresh id revision now =>
    let (answer, next) := self.cancel fresh id revision now
    (changeReply answer, next)
  | .undo id now =>
    let (answer, next) := self.undo id now
    (undoReply answer, next)
  | .turn turn =>
    let (answer, next) := self.admitTurn unicode turn
    (turnReply answer, next)

end StandingIntentRegistry

/-- A registry with the calls made on it and their answers, oldest first. -/
structure Logged where
  registry : StandingIntentRegistry
  history : List (IntentCall × IntentReply)

def log (unicode : UnicodeTables) (s : Logged) (c : IntentCall) : Logged :=
  { registry := (s.registry.call unicode c).2, history := s.history ++ [(c, (s.registry.call unicode c).1)] }

def logged (unicode : UnicodeTables) (calls : List IntentCall) : Logged :=
  run (log unicode) { registry := .empty, history := [] } calls

end AnimaCore.StandingIntents
