import AnimaCore.AnimaMemory.Edits

/-!
# AnimaCore.AnimaMemory.Effects — what one call can do to a store

* `Effect p op m`: everything that the call `op` can make of the store of `p`, and what its checks guarantee.
-/

namespace AnimaCore.AnimaMemory

open Lib

variable {F : Type}

/-! ## Clean texts -/

/-- A text without white space around it, and not empty. -/
def Clean (value : String) : Prop := trim value = value ∧ value ≠ ""

theorem trim_toList (value : String) :
    (trim value).toList = (value.toList.dropWhile isWhitespace).rdropWhile isWhitespace := by
  simp [trim, List.rdropWhile]

theorem trim_trim (value : String) : trim (trim value) = trim value := by
  refine String.ext ?_
  rw [trim_toList, trim_toList]
  set front := value.toList.dropWhile isWhitespace with hfront
  have hpre : front.rdropWhile isWhitespace <+: front := List.rdropWhile_prefix _ _
  have hkeep : (front.rdropWhile isWhitespace).dropWhile isWhitespace = front.rdropWhile isWhitespace := by
    rcases hlist : front.rdropWhile isWhitespace with _ | ⟨c, rest⟩
    · rfl
    · obtain ⟨tail, htail⟩ := hpre
      rw [hlist] at htail
      -- The first character is that of `front`, which is not white space.
      have hc : isWhitespace c = false := by
        have hidem := List.dropWhile_idempotent (p := isWhitespace) value.toList
        rw [← hfront, ← htail, List.cons_append, List.dropWhile_cons] at hidem
        by_contra hws
        rw [Bool.not_eq_false] at hws
        rw [if_pos hws] at hidem
        have hlen := congrArg List.length hidem
        have hle := (List.dropWhile_suffix (l := rest ++ tail) isWhitespace).length_le
        simp only [List.length_cons, List.length_append] at hlen hle
        omega
      rw [List.dropWhile_cons, if_neg (by simp [hc])]
  rw [hkeep]
  exact List.rdropWhile_idempotent _ _

theorem normalizeRequiredString_eq_ok {value : String} {error : MemoryError} {cleaned : String}
    (h : normalizeRequiredString value error = .ok cleaned) : Clean cleaned := by
  unfold normalizeRequiredString at h
  split_ifs at h with hempty
  obtain rfl := Except.ok.inj h
  exact ⟨trim_trim value, hempty⟩

theorem normalizeOptionalString_eq_some {value : Option String} {cleaned : String}
    (h : normalizeOptionalString value = some cleaned) : Clean cleaned := by
  unfold normalizeOptionalString at h
  rw [Option.filter_eq_some_iff] at h
  obtain ⟨hmap, hne⟩ := h
  obtain ⟨raw, -, rfl⟩ := Option.map_eq_some_iff.mp hmap
  exact ⟨trim_trim raw, by simpa using hne⟩

/-- The object of a fact is no entity at all, or one with a clean name. -/
def CleanObject (kind : Option RelationshipEndpointKind) (id name : Option String) : Prop :=
  (kind = none ∧ id = none ∧ name = none) ∨ ∃ k i n, kind = some k ∧ id = some i ∧ name = some n ∧ Clean i ∧ Clean n

theorem normalizeTemporalObject_eq_ok {kind : Option RelationshipEndpointKind} {id name : Option String}
    {r : Option RelationshipEndpointKind × Option String × Option String}
    (h : normalizeTemporalObject kind id name = .ok r) : CleanObject r.1 r.2.1 r.2.2 := by
  unfold normalizeTemporalObject at h
  simp only at h
  split_ifs at h with hnone
  · obtain rfl := Except.ok.inj h
    exact .inl ⟨rfl, rfl, rfl⟩
  · rcases hid : normalizeOptionalString id with _ | i
    · rw [hid] at h
      exact absurd h (by simp)
    · rcases hname : normalizeOptionalString name with _ | n
      · rw [hid, hname] at h
        exact absurd h (by simp)
      · rw [hid, hname] at h
        obtain rfl := Except.ok.inj h
        exact .inr ⟨_, i, n, rfl, rfl, rfl, normalizeOptionalString_eq_some hid, normalizeOptionalString_eq_some hname⟩

/-! ## Edges -/

/-- What `same_agent_relationship_edge` compares. -/
def AgentRelationship.edge (r : AgentRelationship F) :
    RelationshipEndpointKind × String × RelationshipEndpointKind × String × String × Option String :=
  (r.sourceKind, r.sourceAgentId, r.targetKind, r.targetAgentId, r.relationshipType, r.worldId)

theorem sameAgentRelationshipEdge_iff {existing : AgentRelationship F} {sourceKind targetKind : RelationshipEndpointKind}
    {sourceAgentId targetAgentId relationshipType : String} {worldId : Option String} :
    MemoryManager.sameAgentRelationshipEdge existing sourceKind sourceAgentId targetKind targetAgentId relationshipType
      worldId = true ↔
    existing.edge = (sourceKind, sourceAgentId, targetKind, targetAgentId, relationshipType, worldId) := by
  simp only [MemoryManager.sameAgentRelationshipEdge, decide_eq_true_eq, AgentRelationship.edge, Prod.mk.injEq]

theorem findRelationship_eq_some {m : MemoryManager F} {pick : ℕ} {p : AgentRelationship F → Bool} {id : String}
    {r : AgentRelationship F} (h : m.findRelationship pick p = some (id, r)) :
    m.agentRelationships[id]? = some r ∧ p r = true := by
  unfold MemoryManager.findRelationship at h
  have hmem := List.mem_of_mem_head? (Option.mem_def.mpr h)
  rw [List.mem_rotate, List.mem_filter] at hmem
  exact ⟨Table.mem_toList.mp hmem.1, hmem.2⟩

theorem findRelationship_eq_none {m : MemoryManager F} {pick : ℕ} {p : AgentRelationship F → Bool}
    (h : m.findRelationship pick p = none) (id : String) (r : AgentRelationship F)
    (hr : m.agentRelationships[id]? = some r) : p r = false := by
  unfold MemoryManager.findRelationship at h
  rw [List.head?_eq_none_iff, List.rotate_eq_nil_iff, List.filter_eq_nil_iff] at h
  simpa using h (id, r) (Table.mem_toList.mpr hr)

theorem edgeTaken_iff {m : MemoryManager F} {r : AgentRelationship F} :
    m.edgeTaken r = true ↔ ∃ (id : String) (existing : AgentRelationship F),
      m.agentRelationships[id]? = some existing ∧ existing.edge = r.edge := by
  unfold MemoryManager.edgeTaken
  rw [List.any_eq_true]
  constructor
  · rintro ⟨existing, hmem, hedge⟩
    obtain ⟨id, hid⟩ := Table.mem_vals.mp hmem
    exact ⟨id, existing, hid, sameAgentRelationshipEdge_iff.mp hedge⟩
  · rintro ⟨id, existing, hid, hedge⟩
    exact ⟨existing, Table.mem_vals.mpr ⟨id, hid⟩, sameAgentRelationshipEdge_iff.mpr hedge⟩

/-! ## Superseding -/

namespace MemoryManager

theorem supersedeFact_idem (now : ℕ) (closeAt : Option ℕ) (f : TemporalFact F) :
    supersedeFact now closeAt (supersedeFact now closeAt f) = supersedeFact now closeAt f := by
  unfold supersedeFact
  rcases f.validTo with _ | b
  · simp
  · simp

theorem supersedeRelationship_idem (now : ℕ) (closeAt : Option ℕ) (r : TemporalRelationship F) :
    supersedeRelationship now closeAt (supersedeRelationship now closeAt r) = supersedeRelationship now closeAt r := by
  unfold supersedeRelationship
  rcases r.validTo with _ | b
  · simp
  · simp

end MemoryManager

/-! ## Calls that fail -/

section

variable (S : Setting F)

open Method

namespace MemoryManager

theorem add_guarded (clock : ℕ → ℕ) (next : ℕ) (memory : NewMemory F) :
    Guarded (fun _ => true) (add S clock next memory) :=
  .check fun _ => .get fun _ => .assign rfl _

theorem addEvaluated_guarded (clock : ℕ → ℕ) (next : ℕ) (memory : NewMemory F) (opts : MemoryEvaluationOptions F) :
    Guarded (fun _ => true) (addEvaluated S clock next memory opts) := by
  refine .get fun m => .check fun evaluation => .ite ?_ (.pure _)
  intro m
  have hadd := add_guarded S clock next { memory with importance := evaluation.suggestedImportance } m
  rw [bind_call]
  rcases hcall : (add S clock next { memory with importance := evaluation.suggestedImportance }).call m with ⟨e | full, m'⟩
  · rw [hcall] at hadd
    exact .inl (hadd.resolve_right (by simp))
  · exact .inr ⟨_, rfl, rfl⟩

theorem upsertEntity_guarded (clock : ℕ → ℕ) (entity : NewMemoryEntity) :
    Guarded (fun _ => true) (upsertEntity (F := F) clock entity) :=
  .check fun _ => .check fun _ => .get fun _ => .assign rfl _

theorem upsertAgentRelationship_guarded (clock : ℕ → ℕ) (next pick : ℕ) (relationship : NewAgentRelationship F) :
    Guarded (fun _ => true) (upsertAgentRelationship S clock next pick relationship) := by
  refine .check fun sourceId => .check fun _ => .check fun targetId => .check fun _ => .check fun type => .check fun _ =>
    .check fun _ => .get fun m => ?_
  simp only
  rcases m.findRelationship pick _ with _ | ⟨id, existing⟩
  · exact .assign rfl _
  · exact .assign rfl _

theorem addTemporalFact_guarded (clock : ℕ → ℕ) (next : ℕ) (fact : NewTemporalFact F) :
    Guarded (fun _ => true) (addTemporalFact S clock next fact) :=
  .check fun _ => .check fun _ => .check fun _ => .check fun _ => .check fun _ => .check fun _ => .check fun _ =>
    .get fun _ => .assign rfl _

theorem addTemporalRelationship_guarded (clock : ℕ → ℕ) (next : ℕ) (relationship : NewTemporalRelationship F) :
    Guarded (fun _ => true) (addTemporalRelationship S clock next relationship) :=
  .check fun _ => .check fun _ => .check fun _ => .check fun _ => .check fun _ => .check fun _ => .check fun _ =>
    .check fun _ => .get fun _ => .assign rfl _

theorem applyRetentionProtectingAt_guarded (policy : MemoryRetentionPolicy F) (now : ℕ) (isProtected : Memory F → Bool) :
    Guarded (fun _ => true) (applyRetentionProtectingAt S policy now isProtected) :=
  .check fun _ => .get fun _ => .assign rfl _

theorem updateMemory_guarded (id : String) (patch : MemoryPatch F) :
    Guarded (fun _ => true) (updateMemory S id patch) := by
  refine .get fun m => ?_
  rcases m.memories[id]? with _ | memory
  · exact .pure _
  · exact .check fun _ => .check fun _ => .assign rfl _

theorem detachSession_guarded (id : String) : Guarded (fun _ => true) (detachSession S id) :=
  .get fun _ => .check fun _ => .assign rfl _

theorem deleteEntity_guarded (kind : RelationshipEndpointKind) (id : String) :
    Guarded (fun _ => true) (deleteEntity (F := F) kind id) :=
  .get fun _ => .ite (.pure _) (.check fun _ => .assign rfl _)

theorem applyFactConsolidation_guarded (prepared : PreparedMemoryConsolidation S) (visible : Memory F → Bool) :
    Guarded (fun _ => true) (applyFactConsolidation S prepared visible) :=
  .get fun _ => .check fun _ => .check fun _ => .assign rfl _

theorem undoFactConsolidation_guarded (prepared : PreparedMemoryConsolidation S) (visible : Memory F → Bool) :
    Guarded (fun _ => true) (undoFactConsolidation S prepared visible) :=
  .get fun _ => .check fun _ => .check fun _ => .check fun _ => .assign rfl _

theorem consolidateFacts_guarded (clock : ℕ → ℕ) (next : ℕ) (agentId : String) (roomId : Option String)
    (sources : List MemoryConsolidationSource) (content groupTag : String) (visible : Memory F → Bool) :
    Guarded (fun _ => true) (consolidateFacts S clock next agentId roomId sources content groupTag visible) :=
  .get fun _ => .check fun prepared => applyFactConsolidation_guarded S prepared visible

end MemoryManager

variable {S}

theorem Process.ended_error {ε α : Type} {p : Process F} {fail : ε → Failure} {took : α → Counters}
    {r : Except ε α × MemoryManager F} {e : Failure} (h : (p.ended fail took r).1 = .error e) :
    ∃ e', r.1 = .error e' ∧ (p.ended fail took r).2 = { p with manager := r.2 } := by
  unfold Process.ended at h ⊢
  rcases hr : r.1 with e' | a
  · exact ⟨e', rfl, rfl⟩
  · rw [hr] at h
    exact absurd h (by simp)

theorem ended_unchanged {ε α : Type} {p : Process F} {m : MemoryManager F} {fail : ε → Failure} {took : α → Counters}
    {f : Method ε (MemoryManager F) α} (hf : Guarded (fun _ => true) f) {e : Failure}
    (h : (p.ended fail took (f.call m)).1 = .error e) : (p.ended fail took (f.call m)).2.manager = m := by
  obtain ⟨e', he', hafter⟩ := Process.ended_error h
  rw [hafter]
  rcases hf m with hsame | ⟨a, hok, -⟩
  · exact hsame
  · rw [he'] at hok
    exact absurd hok (by simp)

theorem perform_error (p : Process F) (op : Op S) (e : Failure) (h : (perform S p op).1 = .error e) :
    (perform S p op).2.manager = p.manager := by
  cases op with
  | add clock memory => exact ended_unchanged (MemoryManager.add_guarded S clock _ memory) h
  | addEvaluated clock memory opts => exact ended_unchanged (MemoryManager.addEvaluated_guarded S clock _ memory opts) h
  | upsertEntity clock entity => exact ended_unchanged (MemoryManager.upsertEntity_guarded clock entity) h
  | upsertAgentRelationship clock pick relationship =>
    exact ended_unchanged (MemoryManager.upsertAgentRelationship_guarded S clock _ pick relationship) h
  | addTemporalFact clock fact => exact ended_unchanged (MemoryManager.addTemporalFact_guarded S clock _ fact) h
  | addTemporalRelationship clock relationship =>
    exact ended_unchanged (MemoryManager.addTemporalRelationship_guarded S clock _ relationship) h
  | applyRetention policy now isProtected =>
    exact ended_unchanged (MemoryManager.applyRetentionProtectingAt_guarded S policy now isProtected) h
  | updateMemory id patch => exact ended_unchanged (MemoryManager.updateMemory_guarded S id patch) h
  | detachSession id => exact ended_unchanged (MemoryManager.detachSession_guarded S id) h
  | deleteEntity kind id => exact ended_unchanged (MemoryManager.deleteEntity_guarded kind id) h
  | consolidateFacts clock agentId roomId sources content groupTag visible =>
    exact ended_unchanged
      (MemoryManager.consolidateFacts_guarded S clock _ agentId roomId sources content groupTag visible) h
  | applyFactConsolidation prepared visible =>
    exact ended_unchanged (MemoryManager.applyFactConsolidation_guarded S prepared visible) h
  | undoFactConsolidation prepared visible =>
    exact ended_unchanged (MemoryManager.undoFactConsolidation_guarded S prepared visible) h
  | forgetTemporalFact id => exact absurd h (by simp [perform])
  | forgetTemporalRelationship id => exact absurd h (by simp [perform])
  | forgetAgentRelationship id => exact absurd h (by simp [perform])
  | forget id => exact absurd h (by simp [perform])
  | clear agentId => exact absurd h (by simp [perform])
  | replaceSnapshot clock snapshot => exact absurd h (by simp [perform])
  | deleteMemory id => exact absurd h (by simp [perform])
  | elsewhere taken => exact absurd h (by simp [perform])

/-! ## Calls that succeed -/

open MemoryManager

variable (S)

/-- What the call `op` can make of the store of `p`. -/
inductive Effect (p : Process F) : Op S → MemoryManager F → Prop
  | same {op : Op S} : Effect p op p.manager
  | added {op : Op S} (now : ℕ) (memory : Memory F) :
      Effect p op { p.manager.putMemory S memory with
        memoryEntities := ensureEntity p.manager.memoryEntities now .agent memory.agentId memory.agentName }
  | rewritten {op : Op S} {id : String} {old updated : Memory F} (hold : p.manager.memories[id]? = some old)
      (hid : updated.id = old.id) (hagent : updated.agentId = old.agentId) (hname : updated.agentName = old.agentName) :
      Effect p op { p.manager with
        memories := p.manager.memories.insert id updated
        index := p.manager.index.addDocument updated.id (S.tokenize (buildIndexText updated)) }
  | entity {op : Op S} (now : ℕ) (kind : RelationshipEndpointKind) {id name : String} (aliases : List String)
      (summary : Option String) (hid : Clean id) (hname : Clean name) :
      Effect p op { p.manager with
        memoryEntities := upsertEntityParts p.manager.memoryEntities now kind id name aliases summary }
  | related {clock : ℕ → ℕ} {pick : ℕ} {relationship : NewAgentRelationship F} (key : String) {r : AgentRelationship F}
      (hcall : ((upsertAgentRelationship S clock p.counters.relationship pick relationship).call p.manager).1 = .ok r)
      (hsource : Clean r.sourceAgentId ∧ Clean r.sourceAgentName) (htarget : Clean r.targetAgentId ∧ Clean r.targetAgentName)
      (hkey : (∃ old, p.manager.agentRelationships[key]? = some old ∧ r.id = old.id ∧ r.edge = old.edge) ∨
        (key = r.id ∧ p.manager.edgeTaken r = false)) :
      Effect p (.upsertAgentRelationship clock pick relationship) { p.manager with
        memoryEntities := upsertEntityParts
          (upsertEntityParts p.manager.memoryEntities (clock 1) r.sourceKind r.sourceAgentId r.sourceAgentName [] none)
          (clock 2) r.targetKind r.targetAgentId r.targetAgentName [] none
        agentRelationships := p.manager.agentRelationships.insert key r }
  | fact {clock : ℕ → ℕ} {fact : NewTemporalFact F} {f : TemporalFact F}
      (hid : f.id = nextTemporalFactId (clock 3) p.counters.temporalFact)
      (hrange : validateTemporalRange f.validFrom f.validTo = .ok ())
      (hsubject : Clean f.subjectId ∧ Clean f.subjectName) (hobject : CleanObject f.objectKind f.objectId f.objectName)
      (hfrom : f.validFrom = fact.validFrom) :
      Effect p (.addTemporalFact clock fact) { p.manager with
        memoryEntities := upsertObject
          (upsertEntityParts p.manager.memoryEntities (clock 1) f.subjectKind f.subjectId f.subjectName [] none)
          (clock 2) f.objectKind f.objectId f.objectName
        temporalFacts := (p.manager.temporalFacts.modifyAll (uniqueStrings fact.supersedesFactIds)
          (supersedeFact (clock 0) (fact.validFrom.or (some (fact.observedAt.getD (clock 0)))))).insert f.id f }
  | temporalRelationship {clock : ℕ → ℕ} {relationship : NewTemporalRelationship F} {r : TemporalRelationship F}
      (hid : r.id = nextTemporalRelationshipId (clock 3) p.counters.temporalRelationship)
      (hrange : validateTemporalRange r.validFrom r.validTo = .ok ())
      (hsource : Clean r.sourceId ∧ Clean r.sourceName) (htarget : Clean r.targetId ∧ Clean r.targetName)
      (hfrom : r.validFrom = relationship.validFrom) :
      Effect p (.addTemporalRelationship clock relationship) { p.manager with
        memoryEntities := upsertEntityParts
          (upsertEntityParts p.manager.memoryEntities (clock 1) r.sourceKind r.sourceId r.sourceName [] none)
          (clock 2) r.targetKind r.targetId r.targetName [] none
        temporalRelationships :=
          (p.manager.temporalRelationships.modifyAll (uniqueStrings relationship.supersedesRelationshipIds)
            (supersedeRelationship (clock 0)
              (relationship.validFrom.or (some (relationship.observedAt.getD (clock 0)))))).insert r.id r }
  | forgotTemporalFact (id : String) : Effect p (.forgetTemporalFact id) (p.manager.forgetTemporalFact id)
  | forgotTemporalRelationship (id : String) :
      Effect p (.forgetTemporalRelationship id) (p.manager.forgetTemporalRelationship id)
  | forgotAgentRelationship (id : String) : Effect p (.forgetAgentRelationship id) (p.manager.forgetAgentRelationship id)
  | forgot (id : String) : Effect p (.forget id) (p.manager.forget id)
  | retained (policy : MemoryRetentionPolicy F) (now : ℕ) (isProtected : Memory F → Bool) :
      Effect p (.applyRetention policy now isProtected) (p.manager.retain S policy now isProtected)
  | cleared (agentId : Option String) : Effect p (.clear agentId) (p.manager.clear agentId)
  | replaced (clock : String → ℕ) (snapshot : MemoryManagerSnapshot F) :
      Effect p (.replaceSnapshot clock snapshot) (p.manager.replaceSnapshot S clock snapshot)
  | deleted (id : String) : Effect p (.deleteMemory id) (p.manager.deleteMemory id).2
  | withoutEntity {kind : RelationshipEndpointKind} {id : String} (hin : entityKey kind id ∈ p.manager.memoryEntities)
      (howner : kind = .agent → ∀ (k : String) memory, p.manager.memories[k]? = some memory → memory.agentId ≠ id) :
      Effect p (.deleteEntity kind id) (p.manager.withoutEntity kind id)
  | consolidated {op : Op S} (prepared : PreparedMemoryConsolidation S)
      (hbefore : p.manager.factConsolidationState S prepared = .before) :
      Effect p op ((prepared.1.sourcesAfter ++ [prepared.1.summary]).foldl (putMemory S) p.manager)
  | undone {op : Op S} (prepared : PreparedMemoryConsolidation S)
      (hafter : p.manager.factConsolidationState S prepared = .after) :
      Effect p op ((prepared.1.sourcesBefore.foldl (putMemory S) p.manager).forget prepared.1.summary.id)

variable {S}

theorem ended_effect {ε α : Type} {p q : Process F} {op : Op S} {fail : ε → Failure} {took : α → Counters}
    {f : Method ε (MemoryManager F) α} (hf : Guarded (fun _ => true) f)
    (hok : ∀ a m', f.call p.manager = (.ok a, m') → Effect S p op m') :
    Effect S p op (q.ended fail took (f.call p.manager)).2.manager := by
  rcases hcall : f.call p.manager with ⟨e | a, m'⟩
  · have hsame := hf p.manager
    rw [hcall] at hsame
    obtain rfl : m' = p.manager := hsame.resolve_right (by simp)
    exact .same
  · exact hok a m' hcall

theorem add_effect {p : Process F} {op : Op S} {clock : ℕ → ℕ} {next : ℕ} {memory : NewMemory F} {m' : MemoryManager F}
    {full : Memory F} (h : (add S clock next memory).call p.manager = (.ok full, m')) : Effect S p op m' := by
  simp only [add, check_bind_eq_ok, get_bind_call, set_bind_call, call_pure, Prod.mk.injEq, Except.ok.injEq] at h
  obtain ⟨importance, -, rfl, rfl⟩ := h
  exact .added (clock 2) _

theorem addEvaluated_effect {p : Process F} {op : Op S} {clock : ℕ → ℕ} {next : ℕ} {memory : NewMemory F}
    {opts : MemoryEvaluationOptions F} {m' : MemoryManager F} {outcome : MemoryEvaluationOutcome F}
    (h : (addEvaluated S clock next memory opts).call p.manager = (.ok outcome, m')) : Effect S p op m' := by
  simp only [addEvaluated, check_bind_eq_ok, get_bind_call] at h
  obtain ⟨evaluation, -, h⟩ := h
  split_ifs at h
  · rw [bind_call] at h
    rcases hadd : (add S clock next { memory with importance := evaluation.suggestedImportance }).call p.manager
      with ⟨e | full, m₁⟩
    · rw [hadd] at h
      exact absurd h (by simp)
    · rw [hadd] at h
      simp only [call_pure, Prod.mk.injEq] at h
      obtain ⟨-, rfl⟩ := h
      exact add_effect hadd
  · simp only [call_pure, Prod.mk.injEq] at h
    obtain ⟨-, rfl⟩ := h
    exact .same

theorem upsertEntity_effect {p : Process F} {op : Op S} {clock : ℕ → ℕ} {entity : NewMemoryEntity} {m' : MemoryManager F}
    {result : MemoryEntity} (h : (upsertEntity clock entity).call p.manager = (.ok result, m')) : Effect S p op m' := by
  simp only [upsertEntity, check_bind_eq_ok, get_bind_call, set_bind_call, call_pure, Prod.mk.injEq] at h
  obtain ⟨id, hid, name, hname, -, rfl⟩ := h
  exact .entity (clock 0) entity.kind entity.aliases entity.summary (normalizeRequiredString_eq_ok hid)
    (normalizeRequiredString_eq_ok hname)

theorem upsertAgentRelationship_eq_ok {clock : ℕ → ℕ} {next pick : ℕ} {relationship : NewAgentRelationship F}
    {m m' : MemoryManager F} {r : AgentRelationship F}
    (h : (upsertAgentRelationship S clock next pick relationship).call m = (.ok r, m')) :
    (Clean r.sourceAgentId ∧ Clean r.sourceAgentName) ∧ (Clean r.targetAgentId ∧ Clean r.targetAgentName) ∧
    ∃ key, ((∃ old, m.agentRelationships[key]? = some old ∧ r.id = old.id ∧ r.edge = old.edge) ∨
        (key = r.id ∧ m.edgeTaken r = false)) ∧
      m' = { m with
        memoryEntities := upsertEntityParts
          (upsertEntityParts m.memoryEntities (clock 1) r.sourceKind r.sourceAgentId r.sourceAgentName [] none)
          (clock 2) r.targetKind r.targetAgentId r.targetAgentName [] none
        agentRelationships := m.agentRelationships.insert key r } := by
  simp only [upsertAgentRelationship, check_bind_eq_ok, get_bind_call] at h
  obtain ⟨sourceId, hsource, sourceName, hsourceName, targetId, htarget, targetName, htargetName, type, htype, strength, -,
    confidence, -, h⟩ := h
  have hs := normalizeRequiredString_eq_ok hsource
  have hsn := normalizeRequiredString_eq_ok hsourceName
  have ht := normalizeRequiredString_eq_ok htarget
  have htn := normalizeRequiredString_eq_ok htargetName
  rcases hfind : m.findRelationship pick (fun existing => sameAgentRelationshipEdge existing
      (relationship.sourceKind.getD .agent) sourceId (relationship.targetKind.getD .agent) targetId type
      relationship.worldId) with _ | ⟨id, existing⟩
  · rw [hfind] at h
    simp only [set_bind_call, call_pure, Prod.mk.injEq, Except.ok.injEq] at h
    obtain ⟨hr, hm⟩ := h
    have hedge : r.edge = (relationship.sourceKind.getD .agent, sourceId, relationship.targetKind.getD .agent, targetId, type,
        relationship.worldId) := by
      rw [← hr]
      rfl
    have hfree : m.edgeTaken r = false := by
      rw [← Bool.not_eq_true, edgeTaken_iff, hedge]
      rintro ⟨id, existing, hat, hsame⟩
      have := findRelationship_eq_none hfind id existing hat
      rw [sameAgentRelationshipEdge_iff.mpr hsame] at this
      exact absurd this (by simp)
    subst hr
    exact ⟨⟨hs, hsn⟩, ⟨ht, htn⟩, _, .inr ⟨rfl, hfree⟩, hm.symm⟩
  · obtain ⟨hat, hedge⟩ := findRelationship_eq_some hfind
    rw [sameAgentRelationshipEdge_iff] at hedge
    rw [hfind] at h
    simp only [set_bind_call, call_pure, Prod.mk.injEq, Except.ok.injEq] at h
    obtain ⟨hr, hm⟩ := h
    have hsame : r.edge = existing.edge := by
      rw [← hr]
      rfl
    have hparts := hsame.trans hedge
    simp only [AgentRelationship.edge, Prod.mk.injEq] at hparts
    obtain ⟨hkind, hid, htkind, htid, -, -⟩ := hparts
    have hname : r.sourceAgentName = sourceName := by rw [← hr]
    have htname : r.targetAgentName = targetName := by rw [← hr]
    have hrid : r.id = existing.id := by rw [← hr]
    rw [hkind, hid, htkind, htid, hname, htname]
    refine ⟨⟨hs, hsn⟩, ⟨ht, htn⟩, id, .inl ⟨existing, hat, hrid, hsame⟩, ?_⟩
    rw [← hm, ← hr]

theorem addTemporalFact_eq_ok {clock : ℕ → ℕ} {next : ℕ} {fact : NewTemporalFact F} {m m' : MemoryManager F}
    {f : TemporalFact F} (h : (addTemporalFact S clock next fact).call m = (.ok f, m')) :
    f.id = nextTemporalFactId (clock 3) next ∧ validateTemporalRange f.validFrom f.validTo = .ok () ∧
    (Clean f.subjectId ∧ Clean f.subjectName) ∧ CleanObject f.objectKind f.objectId f.objectName ∧
    f.validFrom = fact.validFrom ∧
    m' = { m with
      memoryEntities := upsertObject
        (upsertEntityParts m.memoryEntities (clock 1) f.subjectKind f.subjectId f.subjectName [] none)
        (clock 2) f.objectKind f.objectId f.objectName
      temporalFacts := (m.temporalFacts.modifyAll (uniqueStrings fact.supersedesFactIds)
        (supersedeFact (clock 0) (fact.validFrom.or (some (fact.observedAt.getD (clock 0)))))).insert f.id f } := by
  simp only [addTemporalFact, check_bind_eq_ok, get_bind_call, set_bind_call, call_pure, Prod.mk.injEq,
    Except.ok.injEq] at h
  obtain ⟨⟨⟩, hrange, subjectId, hsubject, subjectName, hname, predicate, -, ⟨kind, id, name⟩, hobject, ⟨⟩, -, confidence, -,
    hf, hm⟩ := h
  have hs := normalizeRequiredString_eq_ok hsubject
  have hsn := normalizeRequiredString_eq_ok hname
  have ho := normalizeTemporalObject_eq_ok hobject
  subst hf
  exact ⟨rfl, hrange, ⟨hs, hsn⟩, ho, rfl, hm.symm⟩

theorem addTemporalRelationship_eq_ok {clock : ℕ → ℕ} {next : ℕ} {relationship : NewTemporalRelationship F}
    {m m' : MemoryManager F} {r : TemporalRelationship F}
    (h : (addTemporalRelationship S clock next relationship).call m = (.ok r, m')) :
    r.id = nextTemporalRelationshipId (clock 3) next ∧ validateTemporalRange r.validFrom r.validTo = .ok () ∧
    (Clean r.sourceId ∧ Clean r.sourceName) ∧ (Clean r.targetId ∧ Clean r.targetName) ∧
    r.validFrom = relationship.validFrom ∧
    m' = { m with
      memoryEntities := upsertEntityParts
        (upsertEntityParts m.memoryEntities (clock 1) r.sourceKind r.sourceId r.sourceName [] none)
        (clock 2) r.targetKind r.targetId r.targetName [] none
      temporalRelationships :=
        (m.temporalRelationships.modifyAll (uniqueStrings relationship.supersedesRelationshipIds)
          (supersedeRelationship (clock 0)
            (relationship.validFrom.or (some (relationship.observedAt.getD (clock 0)))))).insert r.id r } := by
  simp only [addTemporalRelationship, check_bind_eq_ok, get_bind_call, set_bind_call, call_pure, Prod.mk.injEq,
    Except.ok.injEq] at h
  obtain ⟨⟨⟩, hrange, sourceId, hsource, sourceName, hsourceName, targetId, htarget, targetName, htargetName, type, -,
    strength, -, confidence, -, hr, hm⟩ := h
  have hs := normalizeRequiredString_eq_ok hsource
  have hsn := normalizeRequiredString_eq_ok hsourceName
  have ht := normalizeRequiredString_eq_ok htarget
  have htn := normalizeRequiredString_eq_ok htargetName
  subst hr
  exact ⟨rfl, hrange, ⟨hs, hsn⟩, ⟨ht, htn⟩, rfl, hm.symm⟩

theorem updateMemory_effect {p : Process F} {op : Op S} {id : String} {patch : MemoryPatch F} {m' : MemoryManager F}
    {result : Option (Memory F)} (h : (updateMemory S id patch).call p.manager = (.ok result, m')) : Effect S p op m' := by
  simp only [updateMemory, get_bind_call] at h
  rcases hold : p.manager.memories[id]? with _ | memory
  · rw [hold] at h
    simp only [call_pure, Prod.mk.injEq] at h
    obtain ⟨-, rfl⟩ := h
    exact .same
  · rw [hold] at h
    simp only [check_bind_eq_ok, set_bind_call, call_pure, Prod.mk.injEq] at h
    obtain ⟨content, -, importance, -, -, rfl⟩ := h
    exact .rewritten hold rfl rfl rfl

theorem detachSession_effect {p : Process F} {op : Op S} {id : String} {m' : MemoryManager F} {updated : Memory F}
    (h : (detachSession S id).call p.manager = (.ok updated, m')) : Effect S p op m' := by
  simp only [detachSession, get_bind_call, check_bind_eq_ok, okOr_eq_ok, set_bind_call, call_pure, Prod.mk.injEq] at h
  obtain ⟨memory, hold, -, rfl⟩ := h
  exact .rewritten hold rfl rfl rfl

theorem deleteEntity_effect {p : Process F} {kind : RelationshipEndpointKind} {id : String} {m' : MemoryManager F}
    {result : Option EntityDeletion} (h : (deleteEntity kind id).call p.manager = (.ok result, m')) :
    Effect S p (.deleteEntity kind id) m' := by
  simp only [deleteEntity, get_bind_call] at h
  split_ifs at h with hin
  · simp only [check_bind_eq_ok, ensure_eq_ok, set_bind_call, call_pure, Prod.mk.injEq] at h
    obtain ⟨⟨⟩, howner, -, rfl⟩ := h
    refine .withoutEntity hin fun hkind k memory hmemory hsame => howner ⟨hkind, ?_⟩
    rw [List.any_eq_true]
    exact ⟨memory, Table.mem_vals.mpr ⟨k, hmemory⟩, by simp [hsame]⟩
  · simp only [call_pure, Prod.mk.injEq] at h
    obtain ⟨-, rfl⟩ := h
    exact .same

theorem applyFactConsolidation_effect {p : Process F} {op : Op S} {prepared : PreparedMemoryConsolidation S}
    {visible : Memory F → Bool} {m' : MemoryManager F} {result : MemoryConsolidation F}
    (h : (applyFactConsolidation S prepared visible).call p.manager = (.ok result, m')) : Effect S p op m' := by
  simp only [applyFactConsolidation, get_bind_call, check_bind_eq_ok, ensure_eq_ok, set_bind_call, call_pure,
    Prod.mk.injEq] at h
  obtain ⟨⟨⟩, hbefore, ⟨⟩, -, -, rfl⟩ := h
  exact .consolidated prepared hbefore

theorem undoFactConsolidation_effect {p : Process F} {op : Op S} {prepared : PreparedMemoryConsolidation S}
    {visible : Memory F → Bool} {m' : MemoryManager F} {result : Unit}
    (h : (undoFactConsolidation S prepared visible).call p.manager = (.ok result, m')) : Effect S p op m' := by
  simp only [undoFactConsolidation, get_bind_call, check_bind_eq_ok, ensure_eq_ok, set_bind_call, call_pure,
    Prod.mk.injEq] at h
  obtain ⟨⟨⟩, hafter, ⟨⟩, -, ⟨⟩, -, -, rfl⟩ := h
  exact .undone prepared hafter

theorem step_effect (p : Process F) (op : Op S) : Effect S p op (step S p op).manager := by
  unfold step
  cases op with
  | add clock memory => exact ended_effect (add_guarded S clock _ memory) fun _ _ h => add_effect h
  | addEvaluated clock memory opts =>
    exact ended_effect (addEvaluated_guarded S clock _ memory opts) fun _ _ h => addEvaluated_effect h
  | upsertEntity clock entity => exact ended_effect (upsertEntity_guarded clock entity) fun _ _ h => upsertEntity_effect h
  | upsertAgentRelationship clock pick relationship =>
    refine ended_effect (upsertAgentRelationship_guarded S clock _ pick relationship) fun r m' h => ?_
    obtain ⟨hsource, htarget, key, hkey, rfl⟩ := upsertAgentRelationship_eq_ok h
    exact .related key (congrArg Prod.fst h) hsource htarget hkey
  | addTemporalFact clock fact =>
    refine ended_effect (addTemporalFact_guarded S clock _ fact) fun f m' h => ?_
    obtain ⟨hid, hrange, hsubject, hobject, hfrom, rfl⟩ := addTemporalFact_eq_ok h
    exact .fact hid hrange hsubject hobject hfrom
  | addTemporalRelationship clock relationship =>
    refine ended_effect (addTemporalRelationship_guarded S clock _ relationship) fun r m' h => ?_
    obtain ⟨hid, hrange, hsource, htarget, hfrom, rfl⟩ := addTemporalRelationship_eq_ok h
    exact .temporalRelationship hid hrange hsource htarget hfrom
  | applyRetention policy now isProtected =>
    refine ended_effect (applyRetentionProtectingAt_guarded S policy now isProtected) fun report m' h => ?_
    simp only [applyRetentionProtectingAt, check_bind_eq_ok, get_bind_call, set_bind_call, call_pure, Prod.mk.injEq] at h
    obtain ⟨-, -, -, rfl⟩ := h
    exact .retained policy now isProtected
  | updateMemory id patch => exact ended_effect (updateMemory_guarded S id patch) fun _ _ h => updateMemory_effect h
  | detachSession id => exact ended_effect (detachSession_guarded S id) fun _ _ h => detachSession_effect h
  | deleteEntity kind id => exact ended_effect (deleteEntity_guarded kind id) fun _ _ h => deleteEntity_effect h
  | consolidateFacts clock agentId roomId sources content groupTag visible =>
    refine ended_effect (consolidateFacts_guarded S clock _ agentId roomId sources content groupTag visible)
      fun result m' h => ?_
    simp only [consolidateFacts, get_bind_call, check_bind_eq_ok] at h
    obtain ⟨prepared, -, h⟩ := h
    exact applyFactConsolidation_effect h
  | applyFactConsolidation prepared visible =>
    exact ended_effect (applyFactConsolidation_guarded S prepared visible) fun _ _ h => applyFactConsolidation_effect h
  | undoFactConsolidation prepared visible =>
    exact ended_effect (undoFactConsolidation_guarded S prepared visible) fun _ _ h => undoFactConsolidation_effect h
  | forgetTemporalFact id => exact .forgotTemporalFact id
  | forgetTemporalRelationship id => exact .forgotTemporalRelationship id
  | forgetAgentRelationship id => exact .forgotAgentRelationship id
  | forget id => exact .forgot id
  | clear agentId => exact .cleared agentId
  | replaceSnapshot clock snapshot => exact .replaced clock snapshot
  | deleteMemory id => exact .deleted id
  | elsewhere taken => exact .same

/-! ## Loading -/

theorem replaceSnapshot_memories (m : MemoryManager F) (clock : String → ℕ) (s : MemoryManagerSnapshot F) :
    (m.replaceSnapshot S clock s).memories = Table.load (·.id) ∅ s.memories := by
  unfold replaceSnapshot
  simp only
  rw [foldl_keeps (f := loadTemporalRelationship clock) (g := MemoryManager.memories) fun _ _ => rfl,
    foldl_keeps (f := loadTemporalFact clock) (g := MemoryManager.memories) fun _ _ => rfl,
    foldl_keeps (f := loadRelationship clock) (g := MemoryManager.memories) fun _ _ => rfl,
    foldl_keeps (f := loadEntity) (g := MemoryManager.memories) fun _ _ => rfl,
    Table.foldl_load (f := loadMemory S clock) (g := MemoryManager.memories) fun _ _ => rfl]
  rfl

theorem replaceSnapshot_agentRelationships (m : MemoryManager F) (clock : String → ℕ) (s : MemoryManagerSnapshot F) :
    (m.replaceSnapshot S clock s).agentRelationships = Table.load (·.id) ∅ s.agentRelationships := by
  unfold replaceSnapshot
  simp only
  rw [foldl_keeps (f := loadTemporalRelationship clock) (g := MemoryManager.agentRelationships) fun _ _ => rfl,
    foldl_keeps (f := loadTemporalFact clock) (g := MemoryManager.agentRelationships) fun _ _ => rfl,
    Table.foldl_load (f := loadRelationship clock) (g := MemoryManager.agentRelationships) fun _ _ => rfl,
    foldl_keeps (f := loadEntity) (g := MemoryManager.agentRelationships) fun _ _ => rfl,
    foldl_keeps (f := loadMemory S clock) (g := MemoryManager.agentRelationships) fun _ _ => rfl]
  rfl

theorem replaceSnapshot_temporalFacts (m : MemoryManager F) (clock : String → ℕ) (s : MemoryManagerSnapshot F) :
    (m.replaceSnapshot S clock s).temporalFacts = Table.load (·.id) ∅ s.temporalFacts := by
  unfold replaceSnapshot
  simp only
  rw [foldl_keeps (f := loadTemporalRelationship clock) (g := MemoryManager.temporalFacts) fun _ _ => rfl,
    Table.foldl_load (f := loadTemporalFact clock) (g := MemoryManager.temporalFacts) fun _ _ => rfl,
    foldl_keeps (f := loadRelationship clock) (g := MemoryManager.temporalFacts) fun _ _ => rfl,
    foldl_keeps (f := loadEntity) (g := MemoryManager.temporalFacts) fun _ _ => rfl,
    foldl_keeps (f := loadMemory S clock) (g := MemoryManager.temporalFacts) fun _ _ => rfl]
  rfl

theorem replaceSnapshot_temporalRelationships (m : MemoryManager F) (clock : String → ℕ) (s : MemoryManagerSnapshot F) :
    (m.replaceSnapshot S clock s).temporalRelationships = Table.load (·.id) ∅ s.temporalRelationships := by
  unfold replaceSnapshot
  simp only
  rw [Table.foldl_load (f := loadTemporalRelationship clock) (g := MemoryManager.temporalRelationships) fun _ _ => rfl,
    foldl_keeps (f := loadTemporalFact clock) (g := MemoryManager.temporalRelationships) fun _ _ => rfl,
    foldl_keeps (f := loadRelationship clock) (g := MemoryManager.temporalRelationships) fun _ _ => rfl,
    foldl_keeps (f := loadEntity) (g := MemoryManager.temporalRelationships) fun _ _ => rfl,
    foldl_keeps (f := loadMemory S clock) (g := MemoryManager.temporalRelationships) fun _ _ => rfl]
  rfl

end

/-! ## A setting to run calls in -/

/-- Numbers in hundredths, and words in lower case. -/
def hundredths : Setting ℕ where
  inUnit value := decide (value ≤ 100)
  same left right := left == right
  less left right := decide (left < right)
  larger := max
  totalCmp := compare
  zero := 0
  duplicateScore := 15
  decayed value age halfLife := value / 2 ^ (age / halfLife)
  score importance memoryType tagged placed :=
    min 100 (importance * 60 / 100 + (match memoryType with
      | .fact | .reflection => 20
      | .taskResult => 15
      | .observation => 12) + (if tagged then 10 else 0) + (if placed then 10 else 0))
  capped := min 100
  tokenize text :=
    ((text.toList.splitOnP isWhitespace).filter fun word => !word.isEmpty).map fun word => String.ofList (word.map Char.toLower)

end AnimaCore.AnimaMemory
