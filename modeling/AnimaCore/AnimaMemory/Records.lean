import AnimaCore.Base
import AnimaCore.Bm25
import AnimaCore.Lib.Method

/-!
# AnimaCore.AnimaMemory.Records — what the memory store keeps

`memory_manager/types.rs` and the helper functions of `memory_manager.rs`: memories, entities, relationships between agents,
temporal facts and temporal relationships, and how their texts are cleaned.

* `Setting F` is what the code takes from outside: the arithmetic of `f64` (the type `F`) and the tokenizer of the index.
  Nothing depends on what they compute.
* `nextId`: an identifier is a label, a time in milliseconds and a number that the process counts up.
-/

namespace AnimaCore.AnimaMemory

open Lib

/-! ## Enumerations -/

inductive MemoryType
  | fact
  | observation
  | taskResult
  | reflection
  deriving DecidableEq, Repr

def MemoryType.asStr : MemoryType → String
  | .fact => "fact"
  | .observation => "observation"
  | .taskResult => "task_result"
  | .reflection => "reflection"

/-- `MemoryScope`; `priv` is `Private`. -/
inductive MemoryScope
  | shared
  | priv
  | room
  deriving DecidableEq, Repr

def MemoryScope.asStr : MemoryScope → String
  | .shared => "shared"
  | .priv => "private"
  | .room => "room"

inductive RelationshipEndpointKind
  | agent
  | user
  | system
  | external
  deriving DecidableEq, Repr

def RelationshipEndpointKind.asStr : RelationshipEndpointKind → String
  | .agent => "agent"
  | .user => "user"
  | .system => "system"
  | .external => "external"

inductive TemporalRecordStatus
  | active
  | superseded
  | retracted
  deriving DecidableEq, Repr

/-- `MemoryError`, the errors that the modelled calls return. -/
inductive MemoryError
  | invalidImportance
  | invalidEntityId
  | invalidEntityName
  | invalidRelationshipEndpoint
  | invalidRelationshipEndpointName
  | invalidRelationshipType
  | invalidRelationshipStrength
  | invalidRelationshipConfidence
  | invalidTemporalSubject
  | invalidTemporalSubjectName
  | invalidTemporalPredicate
  | invalidTemporalObject
  | invalidTemporalObjectName
  | invalidTemporalRelationshipType
  | invalidTemporalStrength
  | invalidTemporalConfidence
  | invalidTemporalValidityRange
  | invalidMemoryContent
  | entityOwnsMemories
  | memoryNotFound
  deriving DecidableEq, Repr

/-! ## Records -/

structure NewMemory (F : Type) where
  agentId : String
  agentName : String
  memoryType : MemoryType
  content : String
  importance : F
  tags : Option (List String)
  scope : Option MemoryScope
  roomId : Option String
  worldId : Option String
  sessionId : Option String

structure Memory (F : Type) where
  id : String
  agentId : String
  agentName : String
  memoryType : MemoryType
  content : String
  importance : F
  createdAt : ℕ
  tags : Option (List String)
  scope : MemoryScope
  roomId : Option String
  worldId : Option String
  sessionId : Option String

structure NewMemoryEntity where
  kind : RelationshipEndpointKind
  id : String
  name : String
  aliases : List String
  summary : Option String
  deriving DecidableEq, Repr

structure MemoryEntity where
  kind : RelationshipEndpointKind
  id : String
  name : String
  aliases : List String
  summary : Option String
  createdAt : ℕ
  updatedAt : ℕ
  deriving DecidableEq, Repr

structure NewAgentRelationship (F : Type) where
  sourceKind : Option RelationshipEndpointKind
  sourceAgentId : String
  sourceAgentName : String
  targetKind : Option RelationshipEndpointKind
  targetAgentId : String
  targetAgentName : String
  relationshipType : String
  summary : Option String
  strength : F
  confidence : F
  evidenceMemoryIds : List String
  tags : Option (List String)
  roomId : Option String
  worldId : Option String
  sessionId : Option String

structure AgentRelationship (F : Type) where
  id : String
  sourceKind : RelationshipEndpointKind
  sourceAgentId : String
  sourceAgentName : String
  targetKind : RelationshipEndpointKind
  targetAgentId : String
  targetAgentName : String
  relationshipType : String
  summary : Option String
  strength : F
  confidence : F
  evidenceMemoryIds : List String
  tags : Option (List String)
  roomId : Option String
  worldId : Option String
  sessionId : Option String
  createdAt : ℕ
  updatedAt : ℕ

structure NewTemporalFact (F : Type) where
  subjectKind : RelationshipEndpointKind
  subjectId : String
  subjectName : String
  predicate : String
  objectKind : Option RelationshipEndpointKind
  objectId : Option String
  objectName : Option String
  value : Option String
  validFrom : Option ℕ
  validTo : Option ℕ
  observedAt : Option ℕ
  confidence : F
  evidenceMemoryIds : List String
  supersedesFactIds : List String
  status : Option TemporalRecordStatus
  tags : Option (List String)
  roomId : Option String
  worldId : Option String
  sessionId : Option String

structure TemporalFact (F : Type) where
  id : String
  subjectKind : RelationshipEndpointKind
  subjectId : String
  subjectName : String
  predicate : String
  objectKind : Option RelationshipEndpointKind
  objectId : Option String
  objectName : Option String
  value : Option String
  validFrom : Option ℕ
  validTo : Option ℕ
  observedAt : ℕ
  confidence : F
  evidenceMemoryIds : List String
  supersedesFactIds : List String
  status : TemporalRecordStatus
  tags : Option (List String)
  roomId : Option String
  worldId : Option String
  sessionId : Option String
  createdAt : ℕ
  updatedAt : ℕ

structure NewTemporalRelationship (F : Type) where
  sourceKind : RelationshipEndpointKind
  sourceId : String
  sourceName : String
  targetKind : RelationshipEndpointKind
  targetId : String
  targetName : String
  relationshipType : String
  summary : Option String
  strength : F
  confidence : F
  validFrom : Option ℕ
  validTo : Option ℕ
  observedAt : Option ℕ
  evidenceMemoryIds : List String
  supersedesRelationshipIds : List String
  status : Option TemporalRecordStatus
  tags : Option (List String)
  roomId : Option String
  worldId : Option String
  sessionId : Option String

structure TemporalRelationship (F : Type) where
  id : String
  sourceKind : RelationshipEndpointKind
  sourceId : String
  sourceName : String
  targetKind : RelationshipEndpointKind
  targetId : String
  targetName : String
  relationshipType : String
  summary : Option String
  strength : F
  confidence : F
  validFrom : Option ℕ
  validTo : Option ℕ
  observedAt : ℕ
  evidenceMemoryIds : List String
  supersedesRelationshipIds : List String
  status : TemporalRecordStatus
  tags : Option (List String)
  roomId : Option String
  worldId : Option String
  sessionId : Option String
  createdAt : ℕ
  updatedAt : ℕ

structure MemoryEvaluationOptions (F : Type) where
  minContentChars : ℕ
  minImportance : F

inductive MemoryEvaluationDecision
  | store
  | merge
  | ignore
  deriving DecidableEq, Repr

structure MemoryEvaluation (F : Type) where
  decision : MemoryEvaluationDecision
  reason : String
  score : F
  suggestedImportance : F
  duplicateMemoryId : Option String

structure MemoryEvaluationOutcome (F : Type) where
  evaluation : MemoryEvaluation F
  memory : Option (Memory F)

/-- `MemoryPatch`; in `tags`, `some none` clears. -/
structure MemoryPatch (F : Type) where
  content : Option String
  importance : Option F
  tags : Option (Option (List String))

structure MemoryRetentionPolicy (F : Type) where
  maxAgeMillis : Option ℕ
  minImportance : Option F
  maxMemories : Option ℕ
  decayHalfLifeMillis : Option ℕ

structure MemoryImportanceAdjustment (F : Type) where
  memoryId : String
  previousImportance : F
  newImportance : F

structure MemoryRetentionReport (F : Type) where
  decayedMemories : List (MemoryImportanceAdjustment F)
  removedMemoryIds : List String
  removedRelationshipIds : List String

structure MemoryManagerSnapshot (F : Type) where
  memories : List (Memory F)
  memoryEntities : List MemoryEntity
  agentRelationships : List (AgentRelationship F)
  temporalFacts : List (TemporalFact F)
  temporalRelationships : List (TemporalRelationship F)

/-! ## What comes from outside -/

/-- The `f64` arithmetic of the store, and `tokenize`. -/
structure Setting (F : Type) where
  /-- `is_finite() && (0.0..=1.0).contains(&value)` -/
  inUnit : F → Bool
  /-- `==` -/
  same : F → F → Bool
  /-- `<` -/
  less : F → F → Bool
  /-- `f64::max` -/
  larger : F → F → F
  /-- `f64::total_cmp` -/
  totalCmp : F → F → Ordering
  /-- `0.0` -/
  zero : F
  /-- `0.15`, the score of a duplicate -/
  duplicateScore : F
  /-- `(previous * 0.5.powf(age / half_life)).clamp(0.0, 1.0)` -/
  decayed : F → ℕ → ℕ → F
  /-- `memory_evaluation_score` of an importance, a type, and whether there are tags and a place -/
  score : F → MemoryType → Bool → Bool → F
  /-- `.min(1.0)` -/
  capped : F → F
  tokenize : String → List String

/-! ## Texts -/

def trim (value : String) : String :=
  String.ofList (((value.toList.dropWhile isWhitespace).reverse.dropWhile isWhitespace).reverse)

def normalizeRequiredString (value : String) (error : MemoryError) : Except MemoryError String :=
  if trim value = "" then .error error else .ok (trim value)

def normalizeOptionalString (value : Option String) : Option String := (value.map trim).filter fun value => value != ""

def mergeUnique (existing incoming : List String) : List String :=
  incoming.foldl (fun existing value =>
    if trim value = "" ∨ trim value ∈ existing then existing else existing ++ [trim value]) existing

def uniqueStrings (values : List String) : List String := mergeUnique [] values

def mergeOptionalUnique (existing incoming : Option (List String)) : Option (List String) :=
  match incoming with
  | none => existing
  | some incoming => some (mergeUnique (existing.getD []) incoming) |>.filter fun values => !values.isEmpty

/-- `tags.map(unique_strings).filter(|tags| !tags.is_empty())`. -/
def cleanTags (tags : Option (List String)) : Option (List String) :=
  (tags.map uniqueStrings).filter fun tags => !tags.isEmpty

def normalizeTextForMatch (value : String) : String :=
  let words := (value.toList.splitOnP isWhitespace).filter fun word => !word.isEmpty
  String.ofList (([' '].intercalate words).map Char.toLower)

def entityKey (kind : RelationshipEndpointKind) (id : String) : String := kind.asStr ++ ":" ++ id

def defaultScope (roomId : Option String) : MemoryScope :=
  if roomId.any fun value => value != "" then .room else .priv

def buildIndexText {F : Type} (memory : Memory F) : String :=
  " ".intercalate ([memory.content, memory.memoryType.asStr, memory.scope.asStr, memory.agentName] ++
    memory.roomId.toList ++ memory.worldId.toList ++ memory.sessionId.toList ++ memory.tags.getD [])

/-! ## Checks -/

variable {F : Type} (S : Setting F)

def validateUnitInterval (value : F) (error : MemoryError) : Except MemoryError F :=
  if S.inUnit value then .ok value else .error error

def validateImportance (importance : F) : Except MemoryError F := validateUnitInterval S importance .invalidImportance

def validateTemporalRange (validFrom validTo : Option ℕ) : Except MemoryError Unit :=
  match validFrom, validTo with
  | some validFrom, some validTo => if validTo < validFrom then .error .invalidTemporalValidityRange else .ok ()
  | _, _ => .ok ()

def normalizeTemporalObject (objectKind : Option RelationshipEndpointKind) (objectId objectName : Option String) :
    Except MemoryError (Option RelationshipEndpointKind × Option String × Option String) :=
  let objectId := normalizeOptionalString objectId
  let objectName := normalizeOptionalString objectName
  if objectKind = none ∧ objectId = none ∧ objectName = none then .ok (none, none, none)
  else
    match objectId, objectName with
    | none, _ => .error .invalidTemporalObject
    | some _, none => .error .invalidTemporalObjectName
    | some objectId, some objectName => .ok (some (objectKind.getD .external), some objectId, some objectName)

/-! ## Identifiers -/

/-- The numbers that the process has counted up to, over all its stores. -/
structure Counters where
  memory : ℕ
  relationship : ℕ
  temporalFact : ℕ
  temporalRelationship : ℕ
  deriving DecidableEq, Repr

def nextId (label : String) (now next : ℕ) : String := label ++ "-" ++ toString now ++ "-" ++ toString next

def nextMemoryId (now next : ℕ) : String := nextId "mem" now next

def nextRelationshipId (now next : ℕ) : String := nextId "rel" now next

def nextTemporalFactId (now next : ℕ) : String := nextId "tfact" now next

def nextTemporalRelationshipId (now next : ℕ) : String := nextId "trel" now next

end AnimaCore.AnimaMemory
