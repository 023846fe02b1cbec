import AnimaCore.AnimaMemory

/-!
# AnimaCore.AnimaMemory.Edits — owner edits and consolidations

`memory_manager/edit.rs` and `memory_manager/reversible.rs`: deleting a memory with its citations, deleting an entity with
what names it, and folding several facts into one summary so that it can be undone.

* `PreparedMemoryConsolidation` can only be built by `prepareImages`, as the private fields of the source have it.
* `Op`, `perform`, `step`: the public calls on a store of a process.
-/

namespace AnimaCore.AnimaMemory

open Lib

variable {F : Type}

/-! ## Deletions -/

structure MemoryDeletion where
  removedRelationshipIds : List String
  updatedRelationshipIds : List String
  updatedFactIds : List String
  updatedTemporalRelationshipIds : List String
  deriving DecidableEq, Repr

structure EntityDeletion where
  removedRelationshipIds : List String
  removedTemporalRelationshipIds : List String
  removedFactIds : List String
  deriving DecidableEq, Repr

/-- `Vec<String>::sort`. -/
def sortedIds (ids : List String) : List String := ids.mergeSort fun left right => (compare left right).isLE

namespace MemoryManager

def uncite (id : String) (ids : List String) : List String := ids.filter fun value => value != id

def deleteMemory (m : MemoryManager F) (id : String) : Option MemoryDeletion × MemoryManager F :=
  if id ∉ m.memories then (none, m)
  else
    let citing := m.agentRelationships.vals.filter fun r => r.evidenceMemoryIds.contains id
    let emptied := (citing.filter fun r => (uncite id r.evidenceMemoryIds).isEmpty).map (·.id)
    let uncited := m.agentRelationships.map fun _ r =>
      if r.evidenceMemoryIds.contains id then { r with evidenceMemoryIds := uncite id r.evidenceMemoryIds } else r
    (some {
      removedRelationshipIds := sortedIds emptied
      updatedRelationshipIds :=
        sortedIds ((citing.filter fun r => !(uncite id r.evidenceMemoryIds).isEmpty).map (·.id))
      updatedFactIds := sortedIds ((m.temporalFacts.vals.filter fun f => f.evidenceMemoryIds.contains id).map (·.id))
      updatedTemporalRelationshipIds :=
        sortedIds ((m.temporalRelationships.vals.filter fun r => r.evidenceMemoryIds.contains id).map (·.id)) },
    { m.forget id with
      agentRelationships := Table.eraseAll uncited emptied
      temporalFacts := m.temporalFacts.map fun _ f => { f with evidenceMemoryIds := uncite id f.evidenceMemoryIds }
      temporalRelationships := m.temporalRelationships.map fun _ r =>
        { r with evidenceMemoryIds := uncite id r.evidenceMemoryIds } })

def relationshipsNaming (m : MemoryManager F) (kind : RelationshipEndpointKind) (id : String) : List String :=
  (m.agentRelationships.vals.filter fun r =>
    decide ((r.sourceKind = kind ∧ r.sourceAgentId = id) ∨ (r.targetKind = kind ∧ r.targetAgentId = id))).map (·.id)

/-- The temporal relationships that name an entity. -/
def temporalRelationshipsNaming (m : MemoryManager F) (kind : RelationshipEndpointKind) (id : String) : List String :=
  (m.temporalRelationships.vals.filter fun r =>
    decide ((r.sourceKind = kind ∧ r.sourceId = id) ∨ (r.targetKind = kind ∧ r.targetId = id))).map (·.id)

def factsNaming (m : MemoryManager F) (kind : RelationshipEndpointKind) (id : String) : List String :=
  (m.temporalFacts.vals.filter fun f =>
    decide ((f.subjectKind = kind ∧ f.subjectId = id) ∨ (f.objectKind = some kind ∧ f.objectId = some id))).map (·.id)

/-- The store without an entity and what names it. -/
def withoutEntity (m : MemoryManager F) (kind : RelationshipEndpointKind) (id : String) : MemoryManager F :=
  { m with
    memoryEntities := m.memoryEntities.erase (entityKey kind id)
    agentRelationships := m.agentRelationships.eraseAll (m.relationshipsNaming kind id)
    temporalRelationships :=
      (m.temporalRelationships.eraseAll (m.temporalRelationshipsNaming kind id)).map fun _ (r : TemporalRelationship F) =>
        { r with
          supersedesRelationshipIds := r.supersedesRelationshipIds.filter fun removed =>
            !(m.temporalRelationshipsNaming kind id).contains removed }
    temporalFacts :=
      (m.temporalFacts.eraseAll (m.factsNaming kind id)).map fun _ (f : TemporalFact F) =>
        { f with
          supersedesFactIds := f.supersedesFactIds.filter fun removed => !(m.factsNaming kind id).contains removed } }

def deleteEntity (kind : RelationshipEndpointKind) (id : String) :
    Method MemoryError (MemoryManager F) (Option EntityDeletion) := do
  let m ← get
  if entityKey kind id ∉ m.memoryEntities then return none
  else
    Method.check (ensure (¬ (kind = .agent ∧ (m.memories.vals.any fun memory => memory.agentId == id) = true))
      .entityOwnsMemories)
    set (m.withoutEntity kind id)
    return some {
      removedRelationshipIds := sortedIds (m.relationshipsNaming kind id)
      removedTemporalRelationshipIds := sortedIds (m.temporalRelationshipsNaming kind id)
      removedFactIds := sortedIds (m.factsNaming kind id) }

end MemoryManager

/-! ## Consolidations -/

structure MemoryConsolidationSource where
  id : String
  expectedContent : String
  deriving DecidableEq, Repr

structure MemoryConsolidation (F : Type) where
  summary : Memory F
  archivedIds : List String

inductive MemoryConsolidationError
  | invalidInput
  | sourceUnavailable
  | sourceChanged
  | incompatibleCohort
  | tagCapacity
  | invalidImportance
  | stateDiverged
  | summaryCited
  deriving DecidableEq, Repr

def validateRequest (sourceCount : ℕ) (content groupTag summaryId : String) : Except MemoryConsolidationError Unit :=
  ensure (2 ≤ sourceCount ∧ sourceCount ≤ 8 ∧ content.utf8ByteSize ≤ 8000 * 4 ∧ content.toList.length ≤ 8000 ∧
    trimmedEmpty content = false ∧
    ("cg:".toList.isPrefixOf groupTag.toList = true ∧ (groupTag.toList.drop 3).length = 32 ∧
      (groupTag.toList.drop 3).all (fun c => c.isDigit || ('a' ≤ c && c ≤ 'f') || ('A' ≤ c && c ≤ 'F')) = true) ∧
    summaryId.utf8ByteSize ≤ 256 ∧ trimmedEmpty summaryId = false) .invalidInput

def validateSourceInput (id content : String) : Except MemoryConsolidationError Unit :=
  ensure (id.utf8ByteSize ≤ 256 ∧ trimmedEmpty id = false ∧ content.utf8ByteSize ≤ 8000 * 4 ∧
    content.toList.length ≤ 8000 ∧ content ≠ "") .invalidInput

/-- The fields of `PreparedMemoryConsolidation`. -/
structure ConsolidationImages (F : Type) where
  sourcesBefore : List (Memory F)
  sourcesAfter : List (Memory F)
  summary : Memory F

def archived (groupTag : String) (source : Memory F) : Memory F :=
  { source with memoryType := .reflection, tags := some (source.tags.getD [] ++ [groupTag]) }

section

variable (S : Setting F)

/-- The checks of `prepare_images` on one source: `first` is the first source, `earlier` the ones before it. -/
def validateSource (first : Memory F) (earlier : List (Memory F)) (summaryId : String) (source : Memory F) :
    Except MemoryConsolidationError Unit := do
  validateSourceInput source.id source.content
  ensure (source.id ≠ summaryId ∧ (earlier.all fun other => other.id != source.id) = true) .invalidInput
  ensure (source.memoryType = .fact ∧ source.worldId = none ∧ source.sessionId = none) .sourceUnavailable
  ensure (source.agentId = first.agentId ∧ source.scope = first.scope ∧ source.roomId = first.roomId ∧
    ¬ (source.scope = .room ∧ (source.roomId.any fun room => room != "") = false)) .incompatibleCohort
  ensure ((source.tags.any fun tags => decide (20 ≤ tags.length)) = false) .tagCapacity
  ensure (S.inUnit source.importance = true) .invalidImportance

def prepareImages (sourcesBefore : List (Memory F)) (content groupTag summaryId : String) (createdAt : ℕ) :
    Except MemoryConsolidationError (ConsolidationImages F) := do
  validateRequest sourcesBefore.length content groupTag summaryId
  match sourcesBefore with
  | [] => .error .invalidInput
  | first :: rest =>
    (first :: rest).zipIdx.forM fun (source, index) =>
      validateSource S first ((first :: rest).take index) summaryId source
    return {
      sourcesBefore := first :: rest
      sourcesAfter := (first :: rest).map (archived groupTag)
      summary := {
        id := summaryId
        agentId := first.agentId
        agentName := first.agentName
        memoryType := .fact
        content := trim content
        importance := (first :: rest).foldl (fun importance source => S.larger importance source.importance) S.zero
        createdAt := createdAt
        tags := some ["runtime", "tool-memory-consolidate", groupTag]
        scope := first.scope
        roomId := first.roomId
        worldId := none
        sessionId := none } }

/-- `PreparedMemoryConsolidation`: images that `prepare_images` has made. -/
def PreparedMemoryConsolidation : Type :=
  { images : ConsolidationImages F //
    ∃ sources content groupTag summaryId createdAt,
      prepareImages S sources content groupTag summaryId createdAt = .ok images }

/-- `PartialEq` of memories. -/
def sameMemory (left right : Memory F) : Bool :=
  decide (left.id = right.id ∧ left.agentId = right.agentId ∧ left.agentName = right.agentName ∧
    left.memoryType = right.memoryType ∧ left.content = right.content) &&
  S.same left.importance right.importance &&
  decide (left.createdAt = right.createdAt ∧ left.tags = right.tags ∧ left.scope = right.scope ∧
    left.roomId = right.roomId ∧ left.worldId = right.worldId ∧ left.sessionId = right.sessionId)

/-- `PartialEq` of lists of memories. -/
def sameMemories (left right : List (Memory F)) : Bool :=
  left.length == right.length && (left.zip right).all fun pair => sameMemory S pair.1 pair.2

def PreparedMemoryConsolidation.fromImages (sourcesBefore sourcesAfter : List (Memory F)) (summary : Memory F) :
    Except MemoryConsolidationError (PreparedMemoryConsolidation S) := do
  let tags ← okOr (summary.tags.filter fun tags => decide (tags.length = 3)) .invalidInput
  match himages : prepareImages S sourcesBefore summary.content (tags.getD 2 "") summary.id summary.createdAt with
  | .error e => .error e
  | .ok expected =>
    if sameMemory S expected.summary summary && sameMemories S expected.sourcesAfter sourcesAfter then
      .ok ⟨expected, _, _, _, _, _, himages⟩
    else .error .invalidInput

inductive MemoryConsolidationState
  | before
  | after
  | diverged
  deriving DecidableEq, Repr

namespace MemoryManager

/-- `self.memories.get(&source.id) == Some(source)`, for all of them. -/
def hasExactly (m : MemoryManager F) (sources : List (Memory F)) : Bool :=
  sources.all fun source => m.memories[source.id]?.any fun memory => sameMemory S memory source

def factConsolidationState (m : MemoryManager F) (prepared : PreparedMemoryConsolidation S) : MemoryConsolidationState :=
  if m.memories[prepared.1.summary.id]?.isNone && m.hasExactly S prepared.1.sourcesBefore then .before
  else if (m.memories[prepared.1.summary.id]?.any fun memory => sameMemory S memory prepared.1.summary) &&
      m.hasExactly S prepared.1.sourcesAfter then .after
  else .diverged

/-- `prepare_fact_consolidation`; the images carry how they were made. -/
def prepareFactConsolidation (m : MemoryManager F) (agentId : String) (roomId : Option String)
    (sources : List MemoryConsolidationSource) (content groupTag summaryId : String) (now : ℕ)
    (visible : Memory F → Bool) : Except MemoryConsolidationError (PreparedMemoryConsolidation S) := do
  validateRequest sources.length content groupTag summaryId
  ensure (summaryId ∉ m.memories) .stateDiverged
  let before ← sources.zipIdx.mapM fun (source, index) => do
    validateSourceInput source.id source.expectedContent
    ensure (((sources.take index).all fun other => other.id != source.id) = true) .invalidInput
    let memory ← okOr (m.memories[source.id]?.filter fun memory =>
      decide (memory.agentId = agentId ∧ memory.memoryType = .fact ∧ memory.worldId = none ∧ memory.sessionId = none) &&
        visible memory) .sourceUnavailable
    ensure (memory.content = source.expectedContent) .sourceChanged
    ensure (¬ (memory.scope = .room ∧
      (roomId.any fun room => room != "" && memory.roomId == some room) = false)) .incompatibleCohort
    return memory
  match himages : prepareImages S before content groupTag summaryId now with
  | .error e => .error e
  | .ok images => .ok ⟨images, before, content, groupTag, summaryId, now, himages⟩

def applyFactConsolidation (prepared : PreparedMemoryConsolidation S) (visible : Memory F → Bool) :
    Method MemoryConsolidationError (MemoryManager F) (MemoryConsolidation F) := do
  let m ← get
  Method.check (ensure (m.factConsolidationState S prepared = .before) .stateDiverged)
  Method.check (ensure ((prepared.1.sourcesBefore.all visible && visible prepared.1.summary) = true) .sourceUnavailable)
  set ((prepared.1.sourcesAfter ++ [prepared.1.summary]).foldl (putMemory S) m)
  return { summary := prepared.1.summary, archivedIds := prepared.1.sourcesAfter.map (·.id) }

def undoFactConsolidation (prepared : PreparedMemoryConsolidation S) (visible : Memory F → Bool) :
    Method MemoryConsolidationError (MemoryManager F) Unit := do
  let m ← get
  Method.check (ensure (m.factConsolidationState S prepared = .after) .stateDiverged)
  Method.check (ensure ((prepared.1.sourcesAfter.all visible && visible prepared.1.summary) = true) .sourceUnavailable)
  let cited := fun (ids : List String) => ids.contains prepared.1.summary.id
  Method.check (ensure (((m.agentRelationships.vals.any fun r => cited r.evidenceMemoryIds) ||
    (m.temporalFacts.vals.any fun f => cited f.evidenceMemoryIds) ||
    (m.temporalRelationships.vals.any fun r => cited r.evidenceMemoryIds)) = false) .summaryCited)
  set ((prepared.1.sourcesBefore.foldl (putMemory S) m).forget prepared.1.summary.id)
  return ()

def consolidateFacts (clock : ℕ → ℕ) (next : ℕ) (agentId : String) (roomId : Option String)
    (sources : List MemoryConsolidationSource) (content groupTag : String) (visible : Memory F → Bool) :
    Method MemoryConsolidationError (MemoryManager F) (MemoryConsolidation F) := do
  let m ← get
  let prepared ← Method.check (m.prepareFactConsolidation S agentId roomId sources content groupTag
    (nextMemoryId (clock 0) next) (clock 1) visible)
  applyFactConsolidation S prepared visible

end MemoryManager

/-! ## Calls -/

/-- One public call that can change the store.  `elsewhere` is what the other stores of the process count up. -/
inductive Op (S : Setting F)
  | add (clock : ℕ → ℕ) (memory : NewMemory F)
  | addEvaluated (clock : ℕ → ℕ) (memory : NewMemory F) (opts : MemoryEvaluationOptions F)
  | upsertEntity (clock : ℕ → ℕ) (entity : NewMemoryEntity)
  | upsertAgentRelationship (clock : ℕ → ℕ) (pick : ℕ) (relationship : NewAgentRelationship F)
  | addTemporalFact (clock : ℕ → ℕ) (fact : NewTemporalFact F)
  | addTemporalRelationship (clock : ℕ → ℕ) (relationship : NewTemporalRelationship F)
  | forgetTemporalFact (id : String)
  | forgetTemporalRelationship (id : String)
  | forgetAgentRelationship (id : String)
  | forget (id : String)
  | applyRetention (policy : MemoryRetentionPolicy F) (now : ℕ) (isProtected : Memory F → Bool)
  | clear (agentId : Option String)
  | replaceSnapshot (clock : String → ℕ) (snapshot : MemoryManagerSnapshot F)
  | updateMemory (id : String) (patch : MemoryPatch F)
  | detachSession (id : String)
  | deleteMemory (id : String)
  | deleteEntity (kind : RelationshipEndpointKind) (id : String)
  | consolidateFacts (clock : ℕ → ℕ) (agentId : String) (roomId : Option String)
      (sources : List MemoryConsolidationSource) (content groupTag : String) (visible : Memory F → Bool)
  | applyFactConsolidation (prepared : PreparedMemoryConsolidation S) (visible : Memory F → Bool)
  | undoFactConsolidation (prepared : PreparedMemoryConsolidation S) (visible : Memory F → Bool)
  | elsewhere (taken : Counters)

structure Process (F : Type) where
  manager : MemoryManager F
  counters : Counters

inductive Failure
  | memory (error : MemoryError)
  | consolidation (error : MemoryConsolidationError)
  deriving DecidableEq, Repr

def Process.new (counters : Counters) : Process F := ⟨.new, counters⟩

/-- The end of a call that can fail: the answer, the store, and the counters if the call took an identifier. -/
def Process.ended {ε α : Type} (p : Process F) (fail : ε → Failure) (took : α → Counters)
    (r : Except ε α × MemoryManager F) : Except Failure Unit × Process F :=
  match r.1 with
  | .error e => (.error (fail e), { p with manager := r.2 })
  | .ok a => (.ok (), ⟨r.2, took a⟩)

/-- A call: whether it failed, and the process after it. -/
def perform (p : Process F) : Op S → Except Failure Unit × Process F
  | .add clock memory => p.ended .memory (fun _ => { p.counters with memory := p.counters.memory + 1 })
      ((MemoryManager.add S clock p.counters.memory memory).call p.manager)
  | .addEvaluated clock memory opts =>
      p.ended .memory (fun outcome =>
          if outcome.memory.isSome then { p.counters with memory := p.counters.memory + 1 } else p.counters)
        ((MemoryManager.addEvaluated S clock p.counters.memory memory opts).call p.manager)
  | .upsertEntity clock entity => p.ended .memory (fun _ => p.counters)
      ((MemoryManager.upsertEntity clock entity).call p.manager)
  | .upsertAgentRelationship clock pick relationship =>
      p.ended .memory (fun r =>
          if p.manager.edgeTaken r then p.counters
          else { p.counters with relationship := p.counters.relationship + 1 })
        ((MemoryManager.upsertAgentRelationship S clock p.counters.relationship pick relationship).call p.manager)
  | .addTemporalFact clock fact =>
      p.ended .memory (fun _ => { p.counters with temporalFact := p.counters.temporalFact + 1 })
        ((MemoryManager.addTemporalFact S clock p.counters.temporalFact fact).call p.manager)
  | .addTemporalRelationship clock relationship =>
      p.ended .memory (fun _ => { p.counters with temporalRelationship := p.counters.temporalRelationship + 1 })
        ((MemoryManager.addTemporalRelationship S clock p.counters.temporalRelationship relationship).call p.manager)
  | .forgetTemporalFact id => (.ok (), { p with manager := p.manager.forgetTemporalFact id })
  | .forgetTemporalRelationship id => (.ok (), { p with manager := p.manager.forgetTemporalRelationship id })
  | .forgetAgentRelationship id => (.ok (), { p with manager := p.manager.forgetAgentRelationship id })
  | .forget id => (.ok (), { p with manager := p.manager.forget id })
  | .applyRetention policy now isProtected => p.ended .memory (fun _ => p.counters)
      ((MemoryManager.applyRetentionProtectingAt S policy now isProtected).call p.manager)
  | .clear agentId => (.ok (), { p with manager := p.manager.clear agentId })
  | .replaceSnapshot clock snapshot => (.ok (), { p with manager := p.manager.replaceSnapshot S clock snapshot })
  | .updateMemory id patch => p.ended .memory (fun _ => p.counters)
      ((MemoryManager.updateMemory S id patch).call p.manager)
  | .detachSession id => p.ended .memory (fun _ => p.counters) ((MemoryManager.detachSession S id).call p.manager)
  | .deleteMemory id => (.ok (), { p with manager := (p.manager.deleteMemory id).2 })
  | .deleteEntity kind id => p.ended .memory (fun _ => p.counters)
      ((MemoryManager.deleteEntity kind id).call p.manager)
  | .consolidateFacts clock agentId roomId sources content groupTag visible =>
      -- The identifier of the summary is taken before anything is checked.
      { p with counters := { p.counters with memory := p.counters.memory + 1 } }.ended .consolidation
        (fun _ => { p.counters with memory := p.counters.memory + 1 })
        ((MemoryManager.consolidateFacts S clock p.counters.memory agentId roomId sources content groupTag visible).call
          p.manager)
  | .applyFactConsolidation prepared visible => p.ended .consolidation (fun _ => p.counters)
      ((MemoryManager.applyFactConsolidation S prepared visible).call p.manager)
  | .undoFactConsolidation prepared visible => p.ended .consolidation (fun _ => p.counters)
      ((MemoryManager.undoFactConsolidation S prepared visible).call p.manager)
  | .elsewhere taken => (.ok (), { p with counters :=
      ⟨p.counters.memory + taken.memory, p.counters.relationship + taken.relationship,
        p.counters.temporalFact + taken.temporalFact, p.counters.temporalRelationship + taken.temporalRelationship⟩ })

def step (p : Process F) (op : Op S) : Process F := (perform S p op).2

end

end AnimaCore.AnimaMemory
