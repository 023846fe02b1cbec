import AnimaCore.AnimaMemory.Records
import AnimaCore.Lib.Machine
import AnimaCore.Lib.Sweep

/-!
# AnimaCore.AnimaMemory — the memory store of a host

`memory_manager.rs` with `edit.rs` and `reversible.rs`: a `MemoryManager` keeps memories, the entities they and the other
records name, relationships, temporal records, and a lexical index of the memories.

* A call that can fail is a `Method`: what it had written when it failed is still there.
* `clock` gives the readings of `now_millis` in one call, `next` the number that the process counter hands out.
* The order in which a `HashMap` is walked is not modelled, except where it decides something: `pick` chooses the
  relationship that an upsert finds when several have the same edge.
* `Op` is one public call, `perform` its answer and the store after it.
-/

namespace AnimaCore.AnimaMemory

open Lib

variable {F : Type}

structure MemoryManager (F : Type) where
  memories : Table String (Memory F)
  memoryEntities : Table String MemoryEntity
  agentRelationships : Table String (AgentRelationship F)
  temporalFacts : Table String (TemporalFact F)
  temporalRelationships : Table String (TemporalRelationship F)
  index : Bm25

namespace MemoryManager

def new : MemoryManager F := ⟨∅, ∅, ∅, ∅, ∅, .empty⟩

/-! ## Entities -/

/-- `ensure_entity_from_parts`, on the entities. -/
def ensureEntity (entities : Table String MemoryEntity) (now : ℕ) (kind : RelationshipEndpointKind) (id name : String) :
    Table String MemoryEntity :=
  if trim id = "" ∨ trim name = "" then entities
  else if entityKey kind (trim id) ∈ entities then entities
  else entities.insert (entityKey kind (trim id))
    { kind, id := trim id, name := trim name, aliases := [], summary := none, createdAt := now, updatedAt := now }

/-- `upsert_entity_parts`: the entity after it. -/
def upsertedEntity (entities : Table String MemoryEntity) (now : ℕ) (kind : RelationshipEndpointKind) (id name : String)
    (aliases : List String) (summary : Option String) : MemoryEntity :=
  match entities[entityKey kind id]? with
  | some existing =>
    { existing with
      name := name
      aliases := mergeUnique existing.aliases (uniqueStrings aliases)
      summary := (normalizeOptionalString summary).or existing.summary
      updatedAt := now }
  | none =>
    { kind, id, name, aliases := uniqueStrings aliases, summary := normalizeOptionalString summary, createdAt := now,
      updatedAt := now }

/-- `upsert_entity_parts`, on the entities. -/
def upsertEntityParts (entities : Table String MemoryEntity) (now : ℕ) (kind : RelationshipEndpointKind) (id name : String)
    (aliases : List String) (summary : Option String) : Table String MemoryEntity :=
  entities.insert (entityKey kind id) (upsertedEntity entities now kind id name aliases summary)

def upsertEntity (clock : ℕ → ℕ) (entity : NewMemoryEntity) : Method MemoryError (MemoryManager F) MemoryEntity := do
  let id ← Method.check (normalizeRequiredString entity.id .invalidEntityId)
  let name ← Method.check (normalizeRequiredString entity.name .invalidEntityName)
  let m ← get
  set { m with
    memoryEntities := upsertEntityParts m.memoryEntities (clock 0) entity.kind id name entity.aliases entity.summary }
  return upsertedEntity m.memoryEntities (clock 0) entity.kind id name entity.aliases entity.summary

section

variable (S : Setting F)

/-! ## Memories -/

def putMemory (m : MemoryManager F) (memory : Memory F) : MemoryManager F :=
  { m with
    memories := m.memories.insert memory.id memory
    index := m.index.addDocument memory.id (S.tokenize (buildIndexText memory)) }

/-- `forget`: a memory and its document are removed. -/
def forget (m : MemoryManager F) (id : String) : MemoryManager F :=
  { m with memories := m.memories.erase id, index := m.index.removeDocument id }

def add (clock : ℕ → ℕ) (next : ℕ) (memory : NewMemory F) : Method MemoryError (MemoryManager F) (Memory F) := do
  let importance ← Method.check (validateImportance S memory.importance)
  let full : Memory F := {
    id := nextMemoryId (clock 0) next
    agentId := memory.agentId
    agentName := memory.agentName
    memoryType := memory.memoryType
    content := memory.content
    importance := importance
    createdAt := clock 1
    tags := memory.tags
    scope := memory.scope.getD (defaultScope memory.roomId)
    roomId := memory.roomId
    worldId := memory.worldId
    sessionId := memory.sessionId }
  let m ← get
  set { m.putMemory S full with
    memoryEntities := ensureEntity m.memoryEntities (clock 2) .agent full.agentId full.agentName }
  return full

def findDuplicateMemory (m : MemoryManager F) (memory : NewMemory F) (scope : MemoryScope) : Option (Memory F) :=
  m.memories.vals.find? fun existing =>
    decide (existing.agentId = memory.agentId ∧ existing.memoryType = memory.memoryType ∧ existing.scope = scope ∧
      existing.roomId = memory.roomId ∧ existing.worldId = memory.worldId ∧ existing.sessionId = memory.sessionId ∧
      normalizeTextForMatch existing.content = normalizeTextForMatch memory.content)

def memoryEvaluationScore (memory : NewMemory F) (importance : F) : F :=
  S.score importance memory.memoryType (memory.tags.any fun tags => tags.any fun tag => !trimmedEmpty tag)
    ([memory.roomId, memory.worldId, memory.sessionId].any fun value => value.any fun value => !trimmedEmpty value)

def evaluateNewMemory (m : MemoryManager F) (memory : NewMemory F) (opts : MemoryEvaluationOptions F) :
    Except MemoryError (MemoryEvaluation F) := do
  let importance ← validateImportance S memory.importance
  let minImportance ← validateImportance S opts.minImportance
  if trimmedEmpty memory.content then
    return ⟨.ignore, "memory content is empty", S.zero, importance, none⟩
  match m.findDuplicateMemory memory (memory.scope.getD (defaultScope memory.roomId)) with
  | some duplicate =>
    return ⟨.merge, "memory duplicates existing evidence", S.duplicateScore, S.larger duplicate.importance importance,
      some duplicate.id⟩
  | none =>
    let score := memoryEvaluationScore S memory importance
    if (trim memory.content).toList.length < opts.minContentChars ∧ S.less importance minImportance = true then
      return ⟨.ignore, "memory is too short and below the importance threshold", score, importance, none⟩
    return ⟨.store, "memory contains distinct evidence", score, S.capped (S.larger score importance), none⟩

def addEvaluated (clock : ℕ → ℕ) (next : ℕ) (memory : NewMemory F) (opts : MemoryEvaluationOptions F) :
    Method MemoryError (MemoryManager F) (MemoryEvaluationOutcome F) := do
  let m ← get
  let evaluation ← Method.check (m.evaluateNewMemory S memory opts)
  if evaluation.decision = .store then
    let full ← add S clock next { memory with importance := evaluation.suggestedImportance }
    return ⟨evaluation, some full⟩
  else
    return ⟨evaluation, none⟩

def updateMemory (id : String) (patch : MemoryPatch F) :
    Method MemoryError (MemoryManager F) (Option (Memory F)) := do
  let m ← get
  match m.memories[id]? with
  | none => return none
  | some memory =>
    let content ← Method.check
      (match patch.content with
      | none => .ok memory.content
      | some content => normalizeRequiredString content .invalidMemoryContent)
    let importance ← Method.check
      (match patch.importance with
      | none => .ok memory.importance
      | some importance => validateImportance S importance)
    let updated := { memory with
      content := content
      importance := importance
      tags := (patch.tags.map cleanTags).getD memory.tags }
    set { m with
      memories := m.memories.insert id updated
      index := m.index.addDocument updated.id (S.tokenize (buildIndexText updated)) }
    return some updated

def detachSession (id : String) : Method MemoryError (MemoryManager F) (Memory F) := do
  let m ← get
  let memory ← Method.check (okOr m.memories[id]? .memoryNotFound)
  let updated := { memory with sessionId := none }
  set { m with
    memories := m.memories.insert id updated
    index := m.index.addDocument updated.id (S.tokenize (buildIndexText updated)) }
  return updated

/-! ## Relationships -/

def sameAgentRelationshipEdge (relationship : AgentRelationship F) (sourceKind : RelationshipEndpointKind)
    (sourceAgentId : String) (targetKind : RelationshipEndpointKind) (targetAgentId relationshipType : String)
    (worldId : Option String) : Bool :=
  decide (relationship.sourceKind = sourceKind ∧ relationship.sourceAgentId = sourceAgentId ∧
    relationship.targetKind = targetKind ∧ relationship.targetAgentId = targetAgentId ∧
    relationship.relationshipType = relationshipType ∧ relationship.worldId = worldId)

/-- The relationship that the upsert finds: one of those with the edge, whichever the map yields first. -/
def findRelationship (m : MemoryManager F) (pick : ℕ) (edge : AgentRelationship F → Bool) : Option (String × AgentRelationship F) :=
  ((m.agentRelationships.toList.filter fun entry => edge entry.2).rotate pick).head?

/-- Whether there is a relationship with the edge of `r`. -/
def edgeTaken (m : MemoryManager F) (r : AgentRelationship F) : Bool :=
  m.agentRelationships.vals.any fun existing => sameAgentRelationshipEdge existing r.sourceKind r.sourceAgentId r.targetKind
    r.targetAgentId r.relationshipType r.worldId

def upsertAgentRelationship (clock : ℕ → ℕ) (next pick : ℕ) (relationship : NewAgentRelationship F) :
    Method MemoryError (MemoryManager F) (AgentRelationship F) := do
  let sourceAgentId ← Method.check (normalizeRequiredString relationship.sourceAgentId .invalidRelationshipEndpoint)
  let sourceAgentName ← Method.check
    (normalizeRequiredString relationship.sourceAgentName .invalidRelationshipEndpointName)
  let sourceKind := relationship.sourceKind.getD .agent
  let targetAgentId ← Method.check (normalizeRequiredString relationship.targetAgentId .invalidRelationshipEndpoint)
  let targetAgentName ← Method.check
    (normalizeRequiredString relationship.targetAgentName .invalidRelationshipEndpointName)
  let targetKind := relationship.targetKind.getD .agent
  let relationshipType ← Method.check (normalizeRequiredString relationship.relationshipType .invalidRelationshipType)
  let strength ← Method.check (validateUnitInterval S relationship.strength .invalidRelationshipStrength)
  let confidence ← Method.check (validateUnitInterval S relationship.confidence .invalidRelationshipConfidence)
  let m ← get
  let entities := upsertEntityParts m.memoryEntities (clock 1) sourceKind sourceAgentId sourceAgentName [] none
  let entities := upsertEntityParts entities (clock 2) targetKind targetAgentId targetAgentName [] none
  match m.findRelationship pick fun existing => sameAgentRelationshipEdge existing sourceKind sourceAgentId targetKind
      targetAgentId relationshipType relationship.worldId with
  | some (id, existing) =>
    let updated := { existing with
      sourceAgentName := sourceAgentName
      targetAgentName := targetAgentName
      summary := relationship.summary.or existing.summary
      strength := strength
      confidence := confidence
      evidenceMemoryIds := mergeUnique existing.evidenceMemoryIds relationship.evidenceMemoryIds
      tags := mergeOptionalUnique existing.tags relationship.tags
      roomId := relationship.roomId.or existing.roomId
      sessionId := relationship.sessionId.or existing.sessionId
      updatedAt := clock 0 }
    set { m with memoryEntities := entities, agentRelationships := m.agentRelationships.insert id updated }
    return updated
  | none =>
    let full : AgentRelationship F := {
      id := nextRelationshipId (clock 3) next
      sourceKind := sourceKind
      sourceAgentId := sourceAgentId
      sourceAgentName := sourceAgentName
      targetKind := targetKind
      targetAgentId := targetAgentId
      targetAgentName := targetAgentName
      relationshipType := relationshipType
      summary := relationship.summary
      strength := strength
      confidence := confidence
      evidenceMemoryIds := uniqueStrings relationship.evidenceMemoryIds
      tags := cleanTags relationship.tags
      roomId := relationship.roomId
      worldId := relationship.worldId
      sessionId := relationship.sessionId
      createdAt := clock 0
      updatedAt := clock 0 }
    set { m with memoryEntities := entities, agentRelationships := m.agentRelationships.insert full.id full }
    return full

def forgetAgentRelationship (m : MemoryManager F) (id : String) : MemoryManager F :=
  { m with agentRelationships := m.agentRelationships.erase id }

/-! ## Temporal records -/

/-- A fact that is superseded: an open one is closed. -/
def supersedeFact (now : ℕ) (closeAt : Option ℕ) (existing : TemporalFact F) : TemporalFact F :=
  { existing with status := .superseded, validTo := existing.validTo.or closeAt, updatedAt := now }

/-- The object of a fact is upserted if it is an entity. -/
def upsertObject (entities : Table String MemoryEntity) (now : ℕ) (kind : Option RelationshipEndpointKind)
    (id name : Option String) : Table String MemoryEntity :=
  match kind, id, name with
  | some kind, some id, some name => upsertEntityParts entities now kind id name [] none
  | _, _, _ => entities

def addTemporalFact (clock : ℕ → ℕ) (next : ℕ) (fact : NewTemporalFact F) :
    Method MemoryError (MemoryManager F) (TemporalFact F) := do
  Method.check (validateTemporalRange fact.validFrom fact.validTo)
  let subjectId ← Method.check (normalizeRequiredString fact.subjectId .invalidTemporalSubject)
  let subjectName ← Method.check (normalizeRequiredString fact.subjectName .invalidTemporalSubjectName)
  let predicate ← Method.check (normalizeRequiredString fact.predicate .invalidTemporalPredicate)
  let (objectKind, objectId, objectName) ← Method.check
    (normalizeTemporalObject fact.objectKind fact.objectId fact.objectName)
  let value := normalizeOptionalString fact.value
  Method.check (ensure (¬ (objectId = none ∧ value = none)) .invalidTemporalObject)
  let confidence ← Method.check (validateUnitInterval S fact.confidence .invalidTemporalConfidence)
  let observedAt := fact.observedAt.getD (clock 0)
  let supersedesFactIds := uniqueStrings fact.supersedesFactIds
  let closeAt := fact.validFrom.or (some observedAt)
  let m ← get
  let temporalFacts := m.temporalFacts.modifyAll supersedesFactIds (supersedeFact (clock 0) closeAt)
  let entities := upsertEntityParts m.memoryEntities (clock 1) fact.subjectKind subjectId subjectName [] none
  let entities := upsertObject entities (clock 2) objectKind objectId objectName
  let full : TemporalFact F := {
    id := nextTemporalFactId (clock 3) next
    subjectKind := fact.subjectKind
    subjectId := subjectId
    subjectName := subjectName
    predicate := predicate
    objectKind := objectKind
    objectId := objectId
    objectName := objectName
    value := value
    validFrom := fact.validFrom
    validTo := fact.validTo
    observedAt := observedAt
    confidence := confidence
    evidenceMemoryIds := uniqueStrings fact.evidenceMemoryIds
    supersedesFactIds := supersedesFactIds
    status := fact.status.getD .active
    tags := cleanTags fact.tags
    roomId := fact.roomId
    worldId := fact.worldId
    sessionId := fact.sessionId
    createdAt := clock 0
    updatedAt := clock 0 }
  set { m with memoryEntities := entities, temporalFacts := temporalFacts.insert full.id full }
  return full

def forgetTemporalFact (m : MemoryManager F) (id : String) : MemoryManager F :=
  { m with
    temporalFacts := (m.temporalFacts.erase id).map fun _ fact =>
      { fact with supersedesFactIds := fact.supersedesFactIds.filter fun value => value != id } }

/-- A relationship that is superseded: an open one is closed. -/
def supersedeRelationship (now : ℕ) (closeAt : Option ℕ) (existing : TemporalRelationship F) : TemporalRelationship F :=
  { existing with status := .superseded, validTo := existing.validTo.or closeAt, updatedAt := now }

def addTemporalRelationship (clock : ℕ → ℕ) (next : ℕ) (relationship : NewTemporalRelationship F) :
    Method MemoryError (MemoryManager F) (TemporalRelationship F) := do
  Method.check (validateTemporalRange relationship.validFrom relationship.validTo)
  let sourceId ← Method.check (normalizeRequiredString relationship.sourceId .invalidRelationshipEndpoint)
  let sourceName ← Method.check (normalizeRequiredString relationship.sourceName .invalidRelationshipEndpointName)
  let targetId ← Method.check (normalizeRequiredString relationship.targetId .invalidRelationshipEndpoint)
  let targetName ← Method.check (normalizeRequiredString relationship.targetName .invalidRelationshipEndpointName)
  let relationshipType ← Method.check
    (normalizeRequiredString relationship.relationshipType .invalidTemporalRelationshipType)
  let strength ← Method.check (validateUnitInterval S relationship.strength .invalidTemporalStrength)
  let confidence ← Method.check (validateUnitInterval S relationship.confidence .invalidTemporalConfidence)
  let observedAt := relationship.observedAt.getD (clock 0)
  let supersedesRelationshipIds := uniqueStrings relationship.supersedesRelationshipIds
  let closeAt := relationship.validFrom.or (some observedAt)
  let m ← get
  let temporalRelationships := m.temporalRelationships.modifyAll supersedesRelationshipIds
    (supersedeRelationship (clock 0) closeAt)
  let entities := upsertEntityParts m.memoryEntities (clock 1) relationship.sourceKind sourceId sourceName [] none
  let entities := upsertEntityParts entities (clock 2) relationship.targetKind targetId targetName [] none
  let full : TemporalRelationship F := {
    id := nextTemporalRelationshipId (clock 3) next
    sourceKind := relationship.sourceKind
    sourceId := sourceId
    sourceName := sourceName
    targetKind := relationship.targetKind
    targetId := targetId
    targetName := targetName
    relationshipType := relationshipType
    summary := normalizeOptionalString relationship.summary
    strength := strength
    confidence := confidence
    validFrom := relationship.validFrom
    validTo := relationship.validTo
    observedAt := observedAt
    evidenceMemoryIds := uniqueStrings relationship.evidenceMemoryIds
    supersedesRelationshipIds := supersedesRelationshipIds
    status := relationship.status.getD .active
    tags := cleanTags relationship.tags
    roomId := relationship.roomId
    worldId := relationship.worldId
    sessionId := relationship.sessionId
    createdAt := clock 0
    updatedAt := clock 0 }
  set { m with memoryEntities := entities, temporalRelationships := temporalRelationships.insert full.id full }
  return full

def forgetTemporalRelationship (m : MemoryManager F) (id : String) : MemoryManager F :=
  { m with
    temporalRelationships := (m.temporalRelationships.erase id).map fun _ relationship =>
      { relationship with
        supersedesRelationshipIds := relationship.supersedesRelationshipIds.filter fun value => value != id } }

/-! ## Retention -/

/-- The decay of one memory at `now`. -/
def decay (halfLife now : ℕ) (isProtected : Memory F → Bool) (memory : Memory F) : Memory F :=
  if isProtected memory then memory
  else if now - memory.createdAt = 0 then memory
  else if S.less (S.decayed memory.importance (now - memory.createdAt) halfLife) memory.importance then
    { memory with importance := S.decayed memory.importance (now - memory.createdAt) halfLife }
  else memory

/-- `ranked.sort_by`: the most important first, then the newest. -/
def ranksBefore (left right : Memory F) : Bool :=
  ((S.totalCmp right.importance left.importance).then
    ((compare right.createdAt left.createdAt).then (compare right.id left.id))).isLE

def retired (policy : MemoryRetentionPolicy F) (now : ℕ) (isProtected : Memory F → Bool) (memories : List (Memory F)) :
    KeySet String :=
  let unprotected := memories.filter fun memory => !isProtected memory
  let stale := unprotected.filter fun memory =>
    policy.maxAgeMillis.any (fun maxAge => decide (maxAge < now - memory.createdAt)) ||
      policy.minImportance.any (fun minImportance => S.less memory.importance minImportance)
  let removed : KeySet String := .ofList (stale.map (·.id))
  match policy.maxMemories with
  | none => removed
  | some maxMemories =>
    let ranked := (unprotected.filter fun memory => !removed.contains memory.id).mergeSort (ranksBefore S)
    (ranked.drop maxMemories).foldl (fun removed memory => removed.insert memory.id) removed

/-- `prune_relationship_evidence`, on the relationships. -/
def pruneRelationshipEvidence (relationships : Table String (AgentRelationship F)) (removed : KeySet String) :
    Table String (AgentRelationship F) × List String :=
  if removed.isEmpty then (relationships, [])
  else
    let pruned := relationships.map fun _ relationship =>
      { relationship with evidenceMemoryIds := relationship.evidenceMemoryIds.filter fun id => !removed.contains id }
    let empty := ((Table.vals pruned).filter fun relationship => relationship.evidenceMemoryIds.isEmpty).map (·.id)
    (Table.eraseAll pruned empty, empty)

def decayedMemories (m : MemoryManager F) (policy : MemoryRetentionPolicy F) (now : ℕ) (isProtected : Memory F → Bool) :
    Table String (Memory F) :=
  match policy.decayHalfLifeMillis with
  | none => m.memories
  | some halfLife => if 0 < halfLife then m.memories.map fun _ => decay S halfLife now isProtected else m.memories

/-- The store once the policy has been applied. -/
def retain (m : MemoryManager F) (policy : MemoryRetentionPolicy F) (now : ℕ) (isProtected : Memory F → Bool) :
    MemoryManager F :=
  let memories := m.decayedMemories S policy now isProtected
  let removed := retired S policy now isProtected memories.vals
  { removed.toList.foldl forget { m with memories := memories } with
    agentRelationships := (pruneRelationshipEvidence m.agentRelationships removed).1 }

def applyRetentionProtectingAt (policy : MemoryRetentionPolicy F) (now : ℕ) (isProtected : Memory F → Bool) :
    Method MemoryError (MemoryManager F) (MemoryRetentionReport F) := do
  Method.check (ensure (policy.minImportance.all S.inUnit = true) .invalidImportance)
  let m ← get
  let memories := m.decayedMemories S policy now isProtected
  let removed := retired S policy now isProtected memories.vals
  set (m.retain S policy now isProtected)
  return {
    decayedMemories := ((m.memories.vals.zip memories.vals).filter fun (before, after) =>
      S.less after.importance before.importance).map fun (before, after) => ⟨before.id, before.importance, after.importance⟩
    removedMemoryIds := removed.toList
    removedRelationshipIds := (pruneRelationshipEvidence m.agentRelationships removed).2 }

/-! ## Clearing and snapshots -/

def clear (m : MemoryManager F) (agentId : Option String) : MemoryManager F :=
  match agentId with
  | none => ⟨∅, ∅, ∅, ∅, ∅, .empty⟩
  | some agentId =>
    let ids := (m.memories.toList.filter fun entry => decide (entry.2.agentId = agentId)).map Prod.fst
    { ids.foldl forget m with
      agentRelationships := m.agentRelationships.filter fun _ relationship =>
        decide ((relationship.sourceKind ≠ .agent ∨ relationship.sourceAgentId ≠ agentId) ∧
          (relationship.targetKind ≠ .agent ∨ relationship.targetAgentId ≠ agentId))
      memoryEntities := m.memoryEntities.filter fun _ entity => decide (entity.kind ≠ .agent ∨ entity.id ≠ agentId)
      temporalFacts := m.temporalFacts.filter fun _ fact =>
        decide (fact.subjectKind ≠ .agent ∨ fact.subjectId ≠ agentId)
      temporalRelationships := m.temporalRelationships.filter fun _ relationship =>
        decide ((relationship.sourceKind ≠ .agent ∨ relationship.sourceId ≠ agentId) ∧
          (relationship.targetKind ≠ .agent ∨ relationship.targetId ≠ agentId)) }

/-- `sort_by` of a creation time and an identifier. -/
def sortedByAge {α : Type} (createdAt : α → ℕ) (id : α → String) (l : List α) : List α :=
  l.mergeSort fun left right => ((compare (createdAt left) (createdAt right)).then (compare (id left) (id right))).isLE

/-- `snapshot`; entities of one time are ordered by kind and then by identifier. -/
def snapshot (m : MemoryManager F) : MemoryManagerSnapshot F where
  memories := sortedByAge (·.createdAt) (·.id) m.memories.vals
  memoryEntities := m.memoryEntities.vals.mergeSort fun left right =>
    ((compare left.createdAt right.createdAt).then
      ((compare left.kind.asStr right.kind.asStr).then (compare left.id right.id))).isLE
  agentRelationships := sortedByAge (·.createdAt) (·.id) m.agentRelationships.vals
  temporalFacts := sortedByAge (·.createdAt) (·.id) m.temporalFacts.vals
  temporalRelationships := sortedByAge (·.createdAt) (·.id) m.temporalRelationships.vals

/-- Loading recreates an entity from what names it; `clock` is the time of that. -/
def ensureNamed (clock : String → ℕ) (entities : Table String MemoryEntity) (kind : RelationshipEndpointKind)
    (id name : String) : Table String MemoryEntity :=
  ensureEntity entities (clock (entityKey kind (trim id))) kind id name

def loadMemory (clock : String → ℕ) (m : MemoryManager F) (memory : Memory F) : MemoryManager F :=
  { m.putMemory S memory with
    memoryEntities := ensureNamed clock m.memoryEntities .agent memory.agentId memory.agentName }

def loadEntity (m : MemoryManager F) (entity : MemoryEntity) : MemoryManager F :=
  { m with memoryEntities := m.memoryEntities.insert (entityKey entity.kind entity.id) entity }

def loadRelationship (clock : String → ℕ) (m : MemoryManager F) (r : AgentRelationship F) : MemoryManager F :=
  { m with
    memoryEntities := ensureNamed clock (ensureNamed clock m.memoryEntities r.sourceKind r.sourceAgentId r.sourceAgentName)
      r.targetKind r.targetAgentId r.targetAgentName
    agentRelationships := m.agentRelationships.insert r.id r }

/-- Loading recreates the object of a fact if it is an entity. -/
def ensureObject (clock : String → ℕ) (entities : Table String MemoryEntity) (kind : Option RelationshipEndpointKind)
    (id name : Option String) : Table String MemoryEntity :=
  match kind, id, name with
  | some kind, some id, some name => ensureNamed clock entities kind id name
  | _, _, _ => entities

def loadTemporalFact (clock : String → ℕ) (m : MemoryManager F) (fact : TemporalFact F) : MemoryManager F :=
  { m with
    memoryEntities := ensureObject clock
      (ensureNamed clock m.memoryEntities fact.subjectKind fact.subjectId fact.subjectName) fact.objectKind fact.objectId
      fact.objectName
    temporalFacts := m.temporalFacts.insert fact.id fact }

def loadTemporalRelationship (clock : String → ℕ) (m : MemoryManager F) (r : TemporalRelationship F) : MemoryManager F :=
  { m with
    memoryEntities := ensureNamed clock (ensureNamed clock m.memoryEntities r.sourceKind r.sourceId r.sourceName)
      r.targetKind r.targetId r.targetName
    temporalRelationships := m.temporalRelationships.insert r.id r }

/-- `replace_snapshot`; an entity that is recreated is recreated once, so `clock` gives its time by its key. -/
def replaceSnapshot (m : MemoryManager F) (clock : String → ℕ) (s : MemoryManagerSnapshot F) : MemoryManager F :=
  let m := m.clear none
  let m := s.memories.foldl (loadMemory S clock) m
  let m := s.memoryEntities.foldl loadEntity m
  let m := s.agentRelationships.foldl (loadRelationship clock) m
  let m := s.temporalFacts.foldl (loadTemporalFact clock) m
  s.temporalRelationships.foldl (loadTemporalRelationship clock) m

end

end MemoryManager

end AnimaCore.AnimaMemory
