import AnimaCore.AnimaMemory.Citations

/-!
# AnimaCore.AnimaMemory.Removals — deletions and the retention clean up

* `ExpiresAt`: the memories of a store that a policy removes.
-/

namespace AnimaCore.AnimaMemory

open Lib

section

variable {F : Type} {S : Setting F} {policy : MemoryRetentionPolicy F} {now : ℕ} {isProtected : Memory F → Bool}
  {m : MemoryManager F}

/-! ## The memories after the retention -/

variable (S policy now isProtected m) in
/-- The policy removes the memory of an identifier. -/
def ExpiresAt (id : String) : Prop :=
  ∃ memory, m.memories[id]? = some memory ∧
    Expires S policy now isProtected (m.memories.vals.map (lowered S policy now isProtected))
      (lowered S policy now isProtected memory)

theorem lowered_id (memory : Memory F) : (lowered S policy now isProtected memory).id = memory.id := by
  unfold lowered
  cases policy.decayHalfLifeMillis with
  | none => rfl
  | some halfLife =>
    simp only
    split_ifs
    · exact decay_id halfLife now isProtected memory
    · rfl

theorem lowered_of_protected {memory : Memory F} (h : isProtected memory = true) :
    lowered S policy now isProtected memory = memory := by
  unfold lowered
  cases policy.decayHalfLifeMillis with
  | none => rfl
  | some halfLife =>
    simp only
    split_ifs
    · unfold MemoryManager.decay
      rw [if_pos h]
    · rfl

theorem lowered_ne_iff (h : S.Ordered) {memory : Memory F} :
    lowered S policy now isProtected memory ≠ memory ↔
      S.less (lowered S policy now isProtected memory).importance memory.importance = true := by
  have hsame : ∀ memory' : Memory F, memory' = memory → S.less memory'.importance memory.importance = false := by
    rintro _ rfl
    exact h.less_irrefl _
  constructor
  · intro hne
    unfold lowered at hne ⊢
    cases hhalf : policy.decayHalfLifeMillis with
    | none => simp [hhalf] at hne
    | some halfLife =>
      simp only [hhalf] at hne ⊢
      unfold MemoryManager.decay at hne ⊢
      split_ifs at hne ⊢ with hpos hprotected hage hless
      · exact absurd rfl hne
      · exact absurd rfl hne
      · exact hless
      · exact absurd rfl hne
      · exact absurd rfl hne
  · intro hless heq
    rw [hsame _ heq] at hless
    cases hless

theorem getElem?_decayedMemories (id : String) : (m.decayedMemories S policy now isProtected)[id]? =
    m.memories[id]?.map (lowered S policy now isProtected) := by
  unfold MemoryManager.decayedMemories lowered
  cases policy.decayHalfLifeMillis with
  | none => simp
  | some halfLife =>
    simp only
    by_cases hpos : 0 < halfLife
    · simp only [if_pos hpos]
      exact Std.ExtTreeMap.getElem?_map
    · simp only [if_neg hpos]
      simp

theorem vals_decayedMemories : (m.decayedMemories S policy now isProtected).vals =
    m.memories.vals.map (lowered S policy now isProtected) := by
  unfold MemoryManager.decayedMemories lowered Table.vals
  cases policy.decayHalfLifeMillis with
  | none => simp
  | some halfLife =>
    simp only
    by_cases hpos : 0 < halfLife
    · simp only [if_pos hpos]
      rw [Std.ExtTreeMap.toList_map, List.map_map, List.map_map]
      rfl
    · simp only [if_neg hpos]
      simp

theorem nodup_lowered (hindexed : Indexed S m) :
    ((m.memories.vals.map (lowered S policy now isProtected)).map (·.id)).Nodup := by
  rw [List.map_map]
  have hids : (fun memory => memory.id) ∘ lowered S policy now isProtected = fun memory : Memory F => memory.id := by
    funext memory
    exact lowered_id memory
  rw [hids]
  exact Table.nodup_key_vals hindexed.named

variable (S policy now isProtected m) in
/-- The identifiers that the retention removes. -/
def retiredIds : KeySet String :=
  MemoryManager.retired S policy now isProtected (m.decayedMemories S policy now isProtected).vals

theorem mem_retiredIds (h : S.Ordered) (hindexed : Indexed S m) {id : String} :
    id ∈ retiredIds S policy now isProtected m ↔ ExpiresAt S policy now isProtected m id := by
  unfold retiredIds ExpiresAt
  rw [vals_decayedMemories, mem_retired h (nodup_lowered hindexed)]
  constructor
  · rintro ⟨memory', hmem, hid, hexpires⟩
    obtain ⟨memory, hvals, rfl⟩ := List.mem_map.mp hmem
    obtain ⟨key, hkey⟩ := Table.mem_vals.mp hvals
    have hsame : key = id := (hindexed.named key memory hkey).symm.trans ((lowered_id memory).symm.trans hid)
    exact ⟨memory, by rw [← hsame]; exact hkey, hexpires⟩
  · rintro ⟨memory, hmemory, hexpires⟩
    have hid : (lowered S policy now isProtected memory).id = id :=
      (lowered_id memory).trans (hindexed.named id memory hmemory)
    exact ⟨_, List.mem_map_of_mem (Table.mem_vals.mpr ⟨id, hmemory⟩), hid, hexpires⟩

theorem retiredIds_isEmpty_iff (h : S.Ordered) (hindexed : Indexed S m) :
    (retiredIds S policy now isProtected m).isEmpty = true ↔ ∀ id, ¬ ExpiresAt S policy now isProtected m id := by
  rw [Std.ExtTreeSet.isEmpty_iff, Std.ExtTreeSet.eq_empty_iff_forall_not_mem]
  simp only [mem_retiredIds h hindexed]

theorem foldl_forget_memories (ids : List String) (m : MemoryManager F) :
    (ids.foldl MemoryManager.forget m).memories = m.memories.eraseAll ids := by
  unfold Table.eraseAll
  induction ids generalizing m with
  | nil => rfl
  | cons id ids ih => exact ih (m.forget id)

theorem retain_memories (id : String) : (m.retain S policy now isProtected).memories[id]? =
    if id ∈ retiredIds S policy now isProtected m then none
    else m.memories[id]?.map (lowered S policy now isProtected) := by
  show ((retiredIds S policy now isProtected m).toList.foldl MemoryManager.forget
    { m with memories := m.decayedMemories S policy now isProtected }).memories[id]? = _
  rw [foldl_forget_memories, Table.getElem?_eraseAll, getElem?_decayedMemories]
  simp only [Std.ExtTreeSet.mem_toList]

theorem gone_retain (h : S.Ordered) (hindexed : Indexed S m) :
    gone m (m.retain S policy now isProtected) = fun id => decide (id ∈ retiredIds S policy now isProtected m) := by
  funext id
  unfold gone
  rw [decide_eq_decide, Table.not_mem_iff_getElem?_eq_none, retain_memories, Table.mem_iff_getElem?_isSome]
  by_cases hretired : id ∈ retiredIds S policy now isProtected m
  · obtain ⟨memory, hmemory, -⟩ := (mem_retiredIds h hindexed).mp hretired
    simp [hretired, hmemory]
  · rw [if_neg hretired, Option.map_eq_none_iff]
    constructor
    · rintro ⟨hsome, hnone⟩
      rw [hnone] at hsome
      cases hsome
    · intro h
      exact absurd h hretired

/-! ## The relationships after the retention -/

section

variable {relationships : Table String (AgentRelationship F)} {removed : KeySet String}

/-- What the retention leaves of a relationship. -/
def AgentRelationship.pruned (gone : String → Bool) (r : AgentRelationship F) : Option (AgentRelationship F) :=
  if AnimaMemory.uncited gone r.evidenceMemoryIds = [] then none
  else some { r with evidenceMemoryIds := AnimaMemory.uncited gone r.evidenceMemoryIds }

theorem uncited_contains (ids : List String) : (ids.filter fun id => !removed.contains id) =
    uncited (fun id => decide (id ∈ removed)) ids := by
  unfold uncited
  refine List.filter_congr fun id _ => congrArg _ ?_
  rw [Bool.eq_iff_iff, decide_eq_true_iff, Std.ExtTreeSet.mem_iff_contains]

theorem mem_pruneRelationshipEvidence (hfiled : Filed (·.id) relationships) {key : String} :
    key ∈ (MemoryManager.pruneRelationshipEvidence relationships removed).2 ↔ removed.isEmpty = false ∧
      ∃ r, relationships[key]? = some r ∧ uncited (fun id => decide (id ∈ removed)) r.evidenceMemoryIds = [] := by
  unfold MemoryManager.pruneRelationshipEvidence
  by_cases hempty : removed.isEmpty = true
  · rw [if_pos hempty]
    simp [hempty]
  · rw [if_neg hempty]
    have hmapped : Filed (·.id) (relationships.map fun _ r =>
        { r with evidenceMemoryIds := r.evidenceMemoryIds.filter fun id => !removed.contains id }) :=
      hfiled.map fun _ => rfl
    simp only
    rw [mem_ids_filter hmapped, Std.ExtTreeMap.getElem?_map]
    constructor
    · rintro ⟨r', hr', hnil⟩
      obtain ⟨r, hr, rfl⟩ := Option.map_eq_some_iff.mp hr'
      exact ⟨by simpa using hempty, r, hr, by rw [← uncited_contains]; simpa using hnil⟩
    · rintro ⟨-, r, hr, hnil⟩
      refine ⟨_, by rw [hr]; rfl, ?_⟩
      simp only
      rw [uncited_contains, hnil]
      rfl

theorem getElem?_pruneRelationshipEvidence (hfiled : Filed (·.id) relationships) (key : String) :
    (MemoryManager.pruneRelationshipEvidence relationships removed).1[key]? =
      if removed.isEmpty = true then relationships[key]?
      else relationships[key]?.bind (·.pruned fun id => decide (id ∈ removed)) := by
  have hmem : key ∈ (MemoryManager.pruneRelationshipEvidence relationships removed).2 ↔ _ :=
    mem_pruneRelationshipEvidence hfiled
  unfold MemoryManager.pruneRelationshipEvidence at hmem ⊢
  by_cases hempty : removed.isEmpty = true
  · rw [if_pos hempty, if_pos hempty]
  · rw [if_neg hempty] at hmem ⊢
    rw [if_neg hempty]
    simp only at hmem ⊢
    rw [Table.getElem?_eraseAll, Std.ExtTreeMap.getElem?_map]
    cases hr : relationships[key]? with
    | none => simp
    | some r =>
      show _ = r.pruned fun id => decide (id ∈ removed)
      unfold AgentRelationship.pruned
      rw [Bool.not_eq_true] at hempty
      by_cases hnil : uncited (fun id => decide (id ∈ removed)) r.evidenceMemoryIds = []
      · rw [if_pos (hmem.mpr ⟨hempty, r, hr, hnil⟩), if_pos hnil]
      · have hkept : ¬ (removed.isEmpty = false ∧ ∃ r, relationships[key]? = some r ∧
            uncited (fun id => decide (id ∈ removed)) r.evidenceMemoryIds = []) := by
          rintro ⟨-, _, hr', hnil'⟩
          rw [hr] at hr'
          cases hr'
          exact hnil hnil'
        rw [if_neg fun h => hkept (hmem.mp h), if_neg hnil, Option.map_some, uncited_contains]

end

theorem AgentRelationship.pruned_eq_uncited {gone : String → Bool} {r : AgentRelationship F}
    (h : r.evidenceMemoryIds ≠ []) : r.pruned gone = r.uncited gone := by
  unfold AgentRelationship.pruned AgentRelationship.uncited
  by_cases hnil : AnimaMemory.uncited gone r.evidenceMemoryIds = []
  · have hany : r.evidenceMemoryIds.any gone = true := by
      rw [← Bool.not_eq_false, ← uncited_eq_self, hnil]
      exact fun heq => h heq.symm
    rw [if_pos hnil, if_pos ⟨hany, hnil⟩]
  · rw [if_neg hnil, if_neg fun hboth => hnil hboth.2]

/-! ## When the retention cleans up -/

variable (S policy now isProtected m) in
/-- There is nothing that the retention does not clean up: every relationship cites something, and no temporal record cites
what expires. -/
structure NothingElse : Prop where
  relationships : ∀ (id : String) r, m.agentRelationships[id]? = some r → r.evidenceMemoryIds ≠ []
  facts : ∀ (id : String) f, m.temporalFacts[id]? = some f →
    ∀ cited ∈ f.evidenceMemoryIds, ¬ ExpiresAt S policy now isProtected m cited
  temporalRelationships : ∀ (id : String) r, m.temporalRelationships[id]? = some r →
    ∀ cited ∈ r.evidenceMemoryIds, ¬ ExpiresAt S policy now isProtected m cited

theorem retain_temporalFacts : (m.retain S policy now isProtected).temporalFacts = m.temporalFacts :=
  foldl_keeps (f := MemoryManager.forget) (g := MemoryManager.temporalFacts) (fun _ _ => rfl) _ _

theorem retain_temporalRelationships :
    (m.retain S policy now isProtected).temporalRelationships = m.temporalRelationships :=
  foldl_keeps (f := MemoryManager.forget) (g := MemoryManager.temporalRelationships) (fun _ _ => rfl) _ _

theorem retain_memoryEntities : (m.retain S policy now isProtected).memoryEntities = m.memoryEntities :=
  foldl_keeps (f := MemoryManager.forget) (g := MemoryManager.memoryEntities) (fun _ _ => rfl) _ _

theorem retain_relationships (hfiled : FiledRecords m) (id : String) :
    (m.retain S policy now isProtected).agentRelationships[id]? =
      if (retiredIds S policy now isProtected m).isEmpty = true then m.agentRelationships[id]?
      else m.agentRelationships[id]?.bind (·.pruned fun id => decide (id ∈ retiredIds S policy now isProtected m)) :=
  getElem?_pruneRelationshipEvidence hfiled.relationships id

theorem retention_cleaned_iff (h : S.Ordered) (hindexed : Indexed S m) (hfiled : FiledRecords m) :
    CleanedUp m (m.retain S policy now isProtected) ↔
      (∀ id, ¬ ExpiresAt S policy now isProtected m id) ∨ NothingElse S policy now isProtected m := by
  have hgone : gone m (m.retain S policy now isProtected) = _ := gone_retain h hindexed
  have hany : ∀ ids : List String, (ids.any fun id => decide (id ∈ retiredIds S policy now isProtected m)) = false ↔
      ∀ cited ∈ ids, ¬ ExpiresAt S policy now isProtected m cited := by
    intro ids
    rw [List.any_eq_false]
    simp only [decide_eq_true_eq, mem_retiredIds h hindexed]
  have hempty : (retiredIds S policy now isProtected m).isEmpty = true ↔ _ := retiredIds_isEmpty_iff h hindexed
  constructor
  · intro hclean
    by_cases hnone : (retiredIds S policy now isProtected m).isEmpty = true
    · exact .inl (hempty.mp hnone)
    · refine .inr ⟨fun id r hr hnil => ?_, fun id f hf => ?_, fun id r hr => ?_⟩
      · -- It cited nothing, so nothing should have become of it.
        have hshould := hclean.relationships id
        rw [retain_relationships hfiled, if_neg hnone, hr] at hshould
        simp [AgentRelationship.pruned, AgentRelationship.uncited, uncited, hnil] at hshould
      · have hshould := hclean.facts id
        rw [retain_temporalFacts, hf, hgone] at hshould
        have hsame := congrArg TemporalFact.evidenceMemoryIds (Option.some.inj hshould)
        exact (hany _).mp (uncited_eq_self.mp hsame.symm)
      · have hshould := hclean.temporalRelationships id
        rw [retain_temporalRelationships, hr, hgone] at hshould
        have hsame := congrArg TemporalRelationship.evidenceMemoryIds (Option.some.inj hshould)
        exact (hany _).mp (uncited_eq_self.mp hsame.symm)
  · intro hcondition
    have hfacts : ∀ (id : String) f, m.temporalFacts[id]? = some f →
        ∀ cited ∈ f.evidenceMemoryIds, ¬ ExpiresAt S policy now isProtected m cited := by
      intro id f hf cited hcited
      rcases hcondition with hnone | helse
      · exact hnone cited
      · exact helse.facts id f hf cited hcited
    have htemporal : ∀ (id : String) r, m.temporalRelationships[id]? = some r →
        ∀ cited ∈ r.evidenceMemoryIds, ¬ ExpiresAt S policy now isProtected m cited := by
      intro id r hr cited hcited
      rcases hcondition with hnone | helse
      · exact hnone cited
      · exact helse.temporalRelationships id r hr cited hcited
    refine ⟨fun id => ?_, fun id => ?_, fun id => ?_, retain_memoryEntities⟩
    · rw [retain_relationships hfiled, hgone]
      cases hr : m.agentRelationships[id]? with
      | none => simp
      | some r =>
        by_cases hnone : (retiredIds S policy now isProtected m).isEmpty = true
        · have hkept := (hany r.evidenceMemoryIds).mpr fun cited _ => hempty.mp hnone cited
          rw [if_pos hnone, Option.bind_some]
          unfold AgentRelationship.uncited
          rw [if_neg (by rw [hkept]; simp), uncited_of_all hkept]
        · have helse := hcondition.resolve_left fun hall => hnone (hempty.mpr hall)
          rw [if_neg hnone, Option.bind_some, Option.bind_some]
          exact AgentRelationship.pruned_eq_uncited (helse.relationships id r hr)
    · rw [retain_temporalFacts, hgone]
      cases hf : m.temporalFacts[id]? with
      | none => rfl
      | some f => rw [Option.map_some, uncited_of_all ((hany _).mpr (hfacts id f hf))]
    · rw [retain_temporalRelationships, hgone]
      cases hr : m.temporalRelationships[id]? with
      | none => rfl
      | some r => rw [Option.map_some, uncited_of_all ((hany _).mpr (htemporal id r hr))]

/-! ## The calls -/

variable (S policy now isProtected) in
/-- What a call of the retention should do: clean up, leave the protected memories, keep no more of the others than the
policy allows, change those that stay by decay only, and report what it removed or decayed. -/
structure RetentionCleansUp (m m' : MemoryManager F) (report : MemoryRetentionReport F) : Prop where
  cleaned : CleanedUp m m'
  untouched : ∀ (id : String) memory, m.memories[id]? = some memory → isProtected memory = true →
    m'.memories[id]? = some memory
  bounded : ∀ maxMemories ∈ policy.maxMemories,
    (m'.memories.vals.filter fun memory => !isProtected memory).length ≤ maxMemories
  stays : ∀ (id : String) memory', m'.memories[id]? = some memory' →
    ∃ memory, m.memories[id]? = some memory ∧ memory' = lowered S policy now isProtected memory
  removedMemories : ∀ id, id ∈ report.removedMemoryIds ↔ Removed m.memories m'.memories id
  removedRelationships : ∀ id, id ∈ report.removedRelationshipIds ↔ Removed m.agentRelationships m'.agentRelationships id
  decayed : ∀ id, id ∈ report.decayedMemories.map (·.memoryId) ↔
    ∃ memory, m.memories[id]? = some memory ∧ lowered S policy now isProtected memory ≠ memory

variable (S m policy now isProtected) in
/-- A call of the retention does so, or it fails and changes nothing. -/
def RetentionMeets : Prop :=
  (∀ error, ((MemoryManager.applyRetentionProtectingAt S policy now isProtected).call m).1 = .error error →
    ((MemoryManager.applyRetentionProtectingAt S policy now isProtected).call m).2 = m) ∧
  ∀ report, ((MemoryManager.applyRetentionProtectingAt S policy now isProtected).call m).1 = .ok report →
    RetentionCleansUp S policy now isProtected m
      ((MemoryManager.applyRetentionProtectingAt S policy now isProtected).call m).2 report

theorem not_expires_of_protected {memories : List (Memory F)} {memory : Memory F} (hp : isProtected memory = true) :
    ¬ Expires S policy now isProtected memories memory := by
  rintro ⟨hunprotected, -⟩
  rw [hp] at hunprotected
  cases hunprotected

theorem retain_untouched (h : S.Ordered) (hindexed : Indexed S m) {id : String} {memory : Memory F}
    (hmemory : m.memories[id]? = some memory) (hp : isProtected memory = true) :
    (m.retain S policy now isProtected).memories[id]? = some memory := by
  have hsame : lowered S policy now isProtected memory = memory := lowered_of_protected hp
  have hstays : id ∉ retiredIds S policy now isProtected m := by
    rw [mem_retiredIds h hindexed]
    rintro ⟨other, hother, hexpires⟩
    rw [hmemory] at hother
    cases hother
    rw [hsame] at hexpires
    exact not_expires_of_protected hp hexpires
  rw [retain_memories, if_neg hstays, hmemory, Option.map_some, hsame]

theorem retain_bounded (hindexed : Indexed S m) {maxMemories : ℕ} (hmax : policy.maxMemories = some maxMemories) :
    ((m.retain S policy now isProtected).memories.vals.filter fun memory => !isProtected memory).length ≤ maxMemories := by
  have hafter : Indexed S (m.retain S policy now isProtected) := hindexed.retain policy now isProtected
  have hnd : ((m.memories.vals.map (lowered S policy now isProtected)).map (·.id)).Nodup := nodup_lowered hindexed
  have hsub : ((m.retain S policy now isProtected).memories.vals.filter fun memory => !isProtected memory) ⊆
      (m.memories.vals.map (lowered S policy now isProtected)).filter fun memory => !isProtected memory &&
        !(MemoryManager.retired S policy now isProtected
          (m.memories.vals.map (lowered S policy now isProtected))).contains memory.id := by
    intro memory' hmem
    obtain ⟨hvals, hunprotected⟩ := List.mem_filter.mp hmem
    obtain ⟨id, hid⟩ := Table.mem_vals.mp hvals
    have hnamed : memory'.id = id := hafter.named id memory' hid
    rw [retain_memories] at hid
    by_cases hretired : id ∈ retiredIds S policy now isProtected m
    · rw [if_pos hretired] at hid
      cases hid
    · rw [if_neg hretired] at hid
      obtain ⟨memory, hmemory, rfl⟩ := Option.map_eq_some_iff.mp hid
      refine List.mem_filter.mpr ⟨List.mem_map_of_mem (Table.mem_vals.mpr ⟨id, hmemory⟩), ?_⟩
      unfold retiredIds at hretired
      rw [vals_decayedMemories, Std.ExtTreeSet.mem_iff_contains, Bool.not_eq_true] at hretired
      rw [hunprotected, hnamed, hretired]
      rfl
  have hdistinct : ((m.retain S policy now isProtected).memories.vals.filter fun memory => !isProtected memory).Nodup :=
    (Table.nodup_key_vals hafter.named).of_map.filter _
  exact (List.subperm_of_subset hdistinct hsub).length_le.trans (length_kept_le hnd hmax)

theorem mem_decayedMemories_report (h : S.Ordered) (hindexed : Indexed S m) {id : String} :
    id ∈ (((m.memories.vals.zip (m.decayedMemories S policy now isProtected).vals).filter fun (before, after) =>
        S.less after.importance before.importance).map fun (before, after) =>
          (⟨before.id, before.importance, after.importance⟩ : MemoryImportanceAdjustment F)).map (·.memoryId) ↔
      ∃ memory, m.memories[id]? = some memory ∧ lowered S policy now isProtected memory ≠ memory := by
  have hzip : m.memories.vals.zip (m.memories.vals.map (lowered S policy now isProtected)) =
      m.memories.vals.map fun memory => (memory, lowered S policy now isProtected memory) := by
    have hpairs := List.zip_map' (f := fun memory : Memory F => memory) (g := lowered S policy now isProtected)
      (l := m.memories.vals)
    rwa [List.map_id'] at hpairs
  rw [vals_decayedMemories, hzip, List.map_map, List.mem_map]
  constructor
  · rintro ⟨_, hpair, hid⟩
    obtain ⟨hpair, hless⟩ := List.mem_filter.mp hpair
    obtain ⟨memory, hvals, rfl⟩ := List.mem_map.mp hpair
    obtain ⟨key, hkey⟩ := Table.mem_vals.mp hvals
    have hsame : key = id := (hindexed.named key memory hkey).symm.trans hid
    exact ⟨memory, by rw [← hsame]; exact hkey, (lowered_ne_iff h).mpr hless⟩
  · rintro ⟨memory, hmemory, hne⟩
    refine ⟨(memory, lowered S policy now isProtected memory), List.mem_filter.mpr ⟨?_, (lowered_ne_iff h).mp hne⟩,
      hindexed.named id memory hmemory⟩
    exact List.mem_map_of_mem (Table.mem_vals.mpr ⟨id, hmemory⟩)

variable (S policy now isProtected m) in
def retentionReport : MemoryRetentionReport F where
  decayedMemories := ((m.memories.vals.zip (m.decayedMemories S policy now isProtected).vals).filter fun (before, after) =>
    S.less after.importance before.importance).map fun (before, after) => ⟨before.id, before.importance, after.importance⟩
  removedMemoryIds := (retiredIds S policy now isProtected m).toList
  removedRelationshipIds :=
    (MemoryManager.pruneRelationshipEvidence m.agentRelationships (retiredIds S policy now isProtected m)).2

theorem applyRetentionProtectingAt_call : (MemoryManager.applyRetentionProtectingAt S policy now isProtected).call m =
    if policy.minImportance.all S.inUnit = true then
      (.ok (retentionReport S policy now isProtected m), m.retain S policy now isProtected)
    else (.error .invalidImportance, m) := by
  unfold MemoryManager.applyRetentionProtectingAt
  by_cases hunit : policy.minImportance.all S.inUnit = true
  · rw [if_pos hunit]
    have hok : (ensure (policy.minImportance.all S.inUnit = true) .invalidImportance : Except MemoryError Unit) = .ok () :=
      ensure_eq_ok.mpr hunit
    rw [hok, Method.check_ok_bind_call]
    rfl
  · rw [if_neg hunit]
    have herror : (ensure (policy.minImportance.all S.inUnit = true) .invalidImportance : Except MemoryError Unit) =
        .error .invalidImportance := ensure_eq_error.mpr ⟨hunit, rfl⟩
    rw [herror, Method.check_error_bind_call]

theorem retention_cleansUp (h : S.Ordered) (hindexed : Indexed S m) (hfiled : FiledRecords m)
    (hclean : CleanedUp m (m.retain S policy now isProtected)) :
    RetentionCleansUp S policy now isProtected m (m.retain S policy now isProtected)
      (retentionReport S policy now isProtected m) where
  cleaned := hclean
  untouched id memory hmemory hp := retain_untouched h hindexed hmemory hp
  bounded maxMemories hmax := retain_bounded hindexed hmax
  stays id memory' hmemory' := by
    rw [retain_memories] at hmemory'
    by_cases hretired : id ∈ retiredIds S policy now isProtected m
    · rw [if_pos hretired] at hmemory'
      cases hmemory'
    · rw [if_neg hretired] at hmemory'
      obtain ⟨memory, hmemory, heq⟩ := Option.map_eq_some_iff.mp hmemory'
      exact ⟨memory, hmemory, heq.symm⟩
  removedMemories id := by
    have hgone : gone m (m.retain S policy now isProtected) id = _ := congrFun (gone_retain h hindexed) id
    show id ∈ (retiredIds S policy now isProtected m).toList ↔ _
    rw [Std.ExtTreeSet.mem_toList]
    exact (decide_eq_decide.mp hgone).symm
  removedRelationships id := by
    show id ∈ (MemoryManager.pruneRelationshipEvidence m.agentRelationships (retiredIds S policy now isProtected m)).2 ↔ _
    unfold Removed
    rw [mem_pruneRelationshipEvidence hfiled.relationships, Table.mem_iff_getElem?_isSome,
      Table.not_mem_iff_getElem?_eq_none, retain_relationships hfiled]
    cases hr : m.agentRelationships[id]? with
    | none => simp
    | some r =>
      by_cases hempty : (retiredIds S policy now isProtected m).isEmpty = true
      · rw [if_pos hempty, hempty]
        simp
      · rw [if_neg hempty, Option.bind_some]
        unfold AgentRelationship.pruned
        rw [Bool.not_eq_true] at hempty
        by_cases hnil : uncited (fun id => decide (id ∈ retiredIds S policy now isProtected m)) r.evidenceMemoryIds = []
        · simp [hempty, hnil]
        · simp [hnil]
  decayed id := mem_decayedMemories_report h hindexed

theorem RetentionMeets.cleaned (h : RetentionMeets S policy now isProtected m)
    (hunit : policy.minImportance.all S.inUnit = true) : CleanedUp m (m.retain S policy now isProtected) := by
  unfold RetentionMeets at h
  rw [applyRetentionProtectingAt_call, if_pos hunit] at h
  exact (h.2 _ rfl).cleaned

theorem retention_meets_iff (h : S.Ordered) (hindexed : Indexed S m) (hfiled : FiledRecords m) :
    RetentionMeets S policy now isProtected m ↔ policy.minImportance.all S.inUnit = false ∨
      (∀ id, ¬ ExpiresAt S policy now isProtected m id) ∨ NothingElse S policy now isProtected m := by
  by_cases hunit : policy.minImportance.all S.inUnit = true
  · rw [← retention_cleaned_iff h hindexed hfiled]
    constructor
    · intro hmeets
      exact .inr (hmeets.cleaned hunit)
    · rintro (hnot | hclean)
      · rw [hunit] at hnot
        cases hnot
      · unfold RetentionMeets
        rw [applyRetentionProtectingAt_call, if_pos hunit]
        refine ⟨fun error herror => ?_, fun report hreport => ?_⟩
        · cases herror
        · cases hreport
          exact retention_cleansUp h hindexed hfiled hclean
  · unfold RetentionMeets
    rw [applyRetentionProtectingAt_call, if_neg hunit]
    refine ⟨fun _ => .inl (by simpa using hunit), fun _ => ⟨fun error _ => rfl, fun report hreport => ?_⟩⟩
    cases hreport

variable (m) in
def DeletionMeets (id : String) : Prop :=
  (id ∉ m.memories → m.deleteMemory id = (none, m)) ∧
  (id ∈ m.memories → ∃ deletion, (m.deleteMemory id).1 = some deletion ∧
    (m.deleteMemory id).2.memories = m.memories.erase id ∧ CleanedUp m (m.deleteMemory id).2 ∧
    DeletionReported m (m.deleteMemory id).2 deletion)

end

theorem hundredths_ordered : hundredths.Ordered where
  totalCmp := inferInstanceAs (Std.TransCmp (compare : ℕ → ℕ → Ordering))
  less_irrefl x := by simp [hundredths]

namespace Sample

/-- A memory is added, and a relationship that cites nothing. -/
def calls : List (Op hundredths) :=
  [.add (fun _ => 0) ⟨"ada", "Ada", .fact, "likes tea", 50, none, none, none, none, none⟩,
    .upsertAgentRelationship (fun _ => 0) 0
      ⟨none, "ada", "Ada", none, "bob", "Bob", "knows", none, 50, 50, [], none, none, none, none⟩]

def policy : MemoryRetentionPolicy ℕ := ⟨some 5, none, none, none⟩

def store : MemoryManager ℕ := (run (step hundredths) (Process.new ⟨0, 0, 0, 0⟩) calls).manager

end Sample

end AnimaCore.AnimaMemory
