import AnimaCore.AnimaMemory.Filed
import AnimaCore.Lib.Ranking

/-!
# AnimaCore.AnimaMemory.Citations — what cites a memory that is removed

`delete_memory` and `apply_retention_protecting_at` remove memories.  `CleanedUp m m'` says what should become of the
citations: those of the memories that are gone, and the relationships that only they supported, are removed, and nothing
else.

* `Expires`: the memories that a policy removes, said without the loops; `mem_retired` compares the two.
-/

namespace AnimaCore.AnimaMemory

open Lib

variable {F : Type} {S : Setting F}

/-! ## What should become of the citations -/

def gone (m m' : MemoryManager F) (id : String) : Bool := decide (id ∈ m.memories ∧ id ∉ m'.memories)

/-- The citations that are left, in their order. -/
def uncited (gone : String → Bool) (ids : List String) : List String := ids.filter fun id => !gone id

/-- What is left of a relationship: nothing if it cited what is gone and cites nothing else. -/
def AgentRelationship.uncited (gone : String → Bool) (r : AgentRelationship F) : Option (AgentRelationship F) :=
  if r.evidenceMemoryIds.any gone = true ∧ AnimaMemory.uncited gone r.evidenceMemoryIds = [] then none
  else some { r with evidenceMemoryIds := AnimaMemory.uncited gone r.evidenceMemoryIds }

/-- The citations of the memories that are gone are removed, and nothing else. -/
structure CleanedUp (m m' : MemoryManager F) : Prop where
  relationships : ∀ id : String, m'.agentRelationships[id]? = m.agentRelationships[id]?.bind (·.uncited (gone m m'))
  facts : ∀ id : String, m'.temporalFacts[id]? = m.temporalFacts[id]?.map fun f =>
    { f with evidenceMemoryIds := uncited (gone m m') f.evidenceMemoryIds }
  temporalRelationships : ∀ id : String, m'.temporalRelationships[id]? = m.temporalRelationships[id]?.map fun r =>
    { r with evidenceMemoryIds := uncited (gone m m') r.evidenceMemoryIds }
  entities : m'.memoryEntities = m.memoryEntities

def Removed {ν : Type} (t t' : Table String ν) (id : String) : Prop := id ∈ t ∧ id ∉ t'

def Changed {ν : Type} (t t' : Table String ν) (id : String) : Prop :=
  ∃ v v', t[id]? = some v ∧ t'[id]? = some v' ∧ v' ≠ v

theorem uncited_eq_self {gone : String → Bool} {ids : List String} : uncited gone ids = ids ↔ ids.any gone = false := by
  unfold uncited
  rw [List.filter_eq_self, List.any_eq_false]
  simp

theorem uncited_of_all {gone : String → Bool} {ids : List String} (h : ids.any gone = false) : uncited gone ids = ids :=
  uncited_eq_self.mpr h

/-! ## Deleting a memory -/

/-- A deletion of a memory that is there removes it and its citations, and reports what it changed. -/
structure DeletionReported (m m' : MemoryManager F) (deletion : MemoryDeletion) : Prop where
  removedRelationships : ∀ id, id ∈ deletion.removedRelationshipIds ↔ Removed m.agentRelationships m'.agentRelationships id
  updatedRelationships : ∀ id, id ∈ deletion.updatedRelationshipIds ↔ Changed m.agentRelationships m'.agentRelationships id
  facts : ∀ id, id ∈ deletion.updatedFactIds ↔ Changed m.temporalFacts m'.temporalFacts id
  temporalRelationships : ∀ id, id ∈ deletion.updatedTemporalRelationshipIds ↔
    Changed m.temporalRelationships m'.temporalRelationships id

theorem mem_sortedIds {ids : List String} {id : String} : id ∈ sortedIds ids ↔ id ∈ ids := by
  unfold sortedIds
  exact (List.mergeSort_perm ids _).mem_iff

theorem mem_ids_filter {ν : Type} {id : ν → String} {t : Table String ν} (h : Filed id t) {p : ν → Bool} {key : String} :
    key ∈ ((Table.vals t).filter p).map id ↔ ∃ v, t[key]? = some v ∧ p v = true := by
  rw [List.mem_map]
  constructor
  · rintro ⟨v, hv, rfl⟩
    obtain ⟨hmem, hp⟩ := List.mem_filter.mp hv
    obtain ⟨k, hk⟩ := Table.mem_vals.mp hmem
    exact ⟨v, by rw [h k v hk]; exact hk, hp⟩
  · rintro ⟨v, hv, hp⟩
    exact ⟨v, List.mem_filter.mpr ⟨Table.mem_vals.mpr ⟨key, hv⟩, hp⟩, h key v hv⟩

theorem uncite_eq (id : String) : MemoryManager.uncite id = uncited fun other => other == id := rfl

theorem any_beq (ids : List String) (id : String) : (ids.any fun other => other == id) = ids.contains id := by
  rw [Bool.eq_iff_iff, List.any_eq_true, List.contains_iff_mem]
  simp

theorem TemporalFact.uncited_ne {gone : String → Bool} {f : TemporalFact F} :
    { f with evidenceMemoryIds := uncited gone f.evidenceMemoryIds } ≠ f ↔ f.evidenceMemoryIds.any gone = true := by
  rw [ne_eq, ← Bool.not_eq_false, not_iff_not, ← uncited_eq_self]
  constructor
  · intro heq
    exact congrArg TemporalFact.evidenceMemoryIds heq
  · intro heq
    rw [heq]

theorem TemporalRelationship.uncited_ne {gone : String → Bool} {r : TemporalRelationship F} :
    { r with evidenceMemoryIds := uncited gone r.evidenceMemoryIds } ≠ r ↔ r.evidenceMemoryIds.any gone = true := by
  rw [ne_eq, ← Bool.not_eq_false, not_iff_not, ← uncited_eq_self]
  constructor
  · intro heq
    exact congrArg TemporalRelationship.evidenceMemoryIds heq
  · intro heq
    rw [heq]

theorem AgentRelationship.uncited_eq_none {gone : String → Bool} {r : AgentRelationship F} : r.uncited gone = none ↔
    r.evidenceMemoryIds.any gone = true ∧ AnimaMemory.uncited gone r.evidenceMemoryIds = [] := by
  unfold AgentRelationship.uncited
  by_cases h : r.evidenceMemoryIds.any gone = true ∧ AnimaMemory.uncited gone r.evidenceMemoryIds = []
  · rw [if_pos h]
    simp [h]
  · rw [if_neg h]
    constructor
    · intro hnone
      cases hnone
    · intro hboth
      exact absurd hboth h

theorem AgentRelationship.uncited_changed {gone : String → Bool} {r : AgentRelationship F} :
    (∃ r', r.uncited gone = some r' ∧ r' ≠ r) ↔
      r.evidenceMemoryIds.any gone = true ∧ AnimaMemory.uncited gone r.evidenceMemoryIds ≠ [] := by
  unfold AgentRelationship.uncited
  constructor
  · rintro ⟨r', hr', hne⟩
    by_cases h : r.evidenceMemoryIds.any gone = true ∧ AnimaMemory.uncited gone r.evidenceMemoryIds = []
    · rw [if_pos h] at hr'
      cases hr'
    · rw [if_neg h] at hr'
      cases hr'
      by_cases hany : r.evidenceMemoryIds.any gone = true
      · exact ⟨hany, fun hnil => h ⟨hany, hnil⟩⟩
      · rw [Bool.not_eq_true] at hany
        exact absurd (by rw [uncited_of_all hany]) hne
  · rintro ⟨hany, hleft⟩
    refine ⟨_, if_neg fun h => hleft h.2, fun heq => ?_⟩
    have hsame := uncited_eq_self.mp (congrArg AgentRelationship.evidenceMemoryIds heq)
    rw [hany] at hsame
    cases hsame

theorem changed_of_map {ν : Type} {t t' : Table String ν} {f : ν → ν} (h : ∀ id : String, t'[id]? = t[id]?.map f)
    {id : String} : Changed t t' id ↔ ∃ v, t[id]? = some v ∧ f v ≠ v := by
  unfold Changed
  constructor
  · rintro ⟨v, v', hv, hv', hne⟩
    rw [h, hv] at hv'
    cases hv'
    exact ⟨v, hv, hne⟩
  · rintro ⟨v, hv, hne⟩
    exact ⟨v, f v, hv, by rw [h, hv]; rfl, hne⟩

theorem relationships_reported {t t' : Table String (AgentRelationship F)} {gone : String → Bool}
    (h : ∀ id : String, t'[id]? = t[id]?.bind (·.uncited gone)) {id : String} :
    (Removed t t' id ↔ ∃ r, t[id]? = some r ∧
      (r.evidenceMemoryIds.any gone = true ∧ uncited gone r.evidenceMemoryIds = [])) ∧
    (Changed t t' id ↔ ∃ r, t[id]? = some r ∧
      (r.evidenceMemoryIds.any gone = true ∧ uncited gone r.evidenceMemoryIds ≠ [])) := by
  unfold Removed Changed
  rw [Table.mem_iff_getElem?_isSome, Table.not_mem_iff_getElem?_eq_none, h]
  cases ht : t[id]? with
  | none => simp
  | some r =>
    constructor
    · simp [AgentRelationship.uncited_eq_none]
    · constructor
      · rintro ⟨_, r', hr, hr', hne⟩
        cases hr
        exact ⟨r, rfl, AgentRelationship.uncited_changed.mp ⟨r', hr', hne⟩⟩
      · rintro ⟨_, hr, hboth⟩
        cases hr
        obtain ⟨r', hr', hne⟩ := AgentRelationship.uncited_changed.mpr hboth
        exact ⟨r, r', rfl, hr', hne⟩

section

variable {m : MemoryManager F} {id : String}

theorem deleteMemory_relationships (hfiled : FiledRecords m) (hid : id ∈ m.memories) (key : String) :
    (m.deleteMemory id).2.agentRelationships[key]? =
      m.agentRelationships[key]?.bind (·.uncited fun other => other == id) := by
  unfold MemoryManager.deleteMemory
  rw [if_neg (not_not_intro hid)]
  simp only
  rw [Table.getElem?_eraseAll, Std.ExtTreeMap.getElem?_map, List.filter_filter]
  cases hr : m.agentRelationships[key]? with
  | none => simp
  | some r =>
    have hemptied : key ∈ (m.agentRelationships.vals.filter fun r =>
          (MemoryManager.uncite id r.evidenceMemoryIds).isEmpty && r.evidenceMemoryIds.contains id).map (·.id) ↔
        r.evidenceMemoryIds.contains id = true ∧ uncited (fun other => other == id) r.evidenceMemoryIds = [] := by
      rw [mem_ids_filter hfiled.relationships, hr]
      simp [uncite_eq, and_comm]
    show _ = r.uncited fun other => other == id
    unfold AgentRelationship.uncited
    rw [any_beq]
    by_cases hgone : r.evidenceMemoryIds.contains id = true ∧ uncited (fun other => other == id) r.evidenceMemoryIds = []
    · rw [if_pos (hemptied.mpr hgone), if_pos hgone]
    · rw [if_neg fun h => hgone (hemptied.mp h), if_neg hgone]
      by_cases hcites : r.evidenceMemoryIds.contains id = true
      · rw [Option.map_some, if_pos hcites]
        rfl
      · rw [Bool.not_eq_true] at hcites
        have hkept : uncited (fun other => other == id) r.evidenceMemoryIds = r.evidenceMemoryIds :=
          uncited_of_all ((any_beq _ _).trans hcites)
        rw [Option.map_some, if_neg (by rw [hcites]; decide), hkept]

theorem gone_deleteMemory (hid : id ∈ m.memories) : gone m (m.deleteMemory id).2 = fun other => other == id := by
  funext other
  have hmemories : (m.deleteMemory id).2.memories = m.memories.erase id := by
    unfold MemoryManager.deleteMemory
    rw [if_neg (not_not_intro hid)]
    rfl
  unfold gone
  rw [hmemories, Bool.eq_iff_iff, decide_eq_true_eq, Std.ExtTreeMap.mem_erase, beq_iff_eq]
  constructor
  · rintro ⟨hmem, hnot⟩
    by_contra hne
    exact hnot ⟨by simpa [compare_eq_iff_eq] using Ne.symm hne, hmem⟩
  · rintro rfl
    exact ⟨hid, fun h => by simp at h⟩

theorem deletion_cleans_up (hfiled : FiledRecords m) (hid : id ∈ m.memories) :
    ∃ deletion, (m.deleteMemory id).1 = some deletion ∧ (m.deleteMemory id).2.memories = m.memories.erase id ∧
      CleanedUp m (m.deleteMemory id).2 ∧ DeletionReported m (m.deleteMemory id).2 deletion := by
  have hrelationships := deleteMemory_relationships hfiled hid
  have hgone := gone_deleteMemory hid
  have hfacts : ∀ key : String, (m.deleteMemory id).2.temporalFacts[key]? = m.temporalFacts[key]?.map fun f =>
      { f with evidenceMemoryIds := uncited (fun other => other == id) f.evidenceMemoryIds } := by
    intro key
    unfold MemoryManager.deleteMemory
    rw [if_neg (not_not_intro hid)]
    exact Std.ExtTreeMap.getElem?_map
  have htemporal : ∀ key : String, (m.deleteMemory id).2.temporalRelationships[key]? =
      m.temporalRelationships[key]?.map fun r =>
        { r with evidenceMemoryIds := uncited (fun other => other == id) r.evidenceMemoryIds } := by
    intro key
    unfold MemoryManager.deleteMemory
    rw [if_neg (not_not_intro hid)]
    exact Std.ExtTreeMap.getElem?_map
  have hclean : CleanedUp m (m.deleteMemory id).2 := by
    refine ⟨?_, ?_, ?_, ?_⟩
    · rw [hgone]
      exact hrelationships
    · rw [hgone]
      exact hfacts
    · rw [hgone]
      exact htemporal
    · unfold MemoryManager.deleteMemory
      rw [if_neg (not_not_intro hid)]
      rfl
  refine ⟨_, by unfold MemoryManager.deleteMemory; rw [if_neg (not_not_intro hid)], ?_, hclean, ?_⟩
  · unfold MemoryManager.deleteMemory
    rw [if_neg (not_not_intro hid)]
    rfl
  · refine ⟨fun key => ?_, fun key => ?_, fun key => ?_, fun key => ?_⟩
    · rw [mem_sortedIds, (relationships_reported hrelationships).1, List.filter_filter,
        mem_ids_filter hfiled.relationships]
      simp [uncite_eq, and_comm]
    · rw [mem_sortedIds, (relationships_reported hrelationships).2, List.filter_filter,
        mem_ids_filter hfiled.relationships]
      simp [uncite_eq, and_comm]
    · rw [mem_sortedIds, changed_of_map hfacts, mem_ids_filter hfiled.facts]
      simp only [TemporalFact.uncited_ne, any_beq]
    · rw [mem_sortedIds, changed_of_map htemporal, mem_ids_filter hfiled.temporalRelationships]
      simp only [TemporalRelationship.uncited_ne, any_beq]

end

/-! ## What a policy removes -/

/-- What the retention relies on in the arithmetic of `f64`. -/
structure Setting.Ordered (S : Setting F) : Prop where
  totalCmp : Std.TransCmp S.totalCmp
  less_irrefl : ∀ x, S.less x x = false

section

variable (S)

def lowered (policy : MemoryRetentionPolicy F) (now : ℕ) (isProtected : Memory F → Bool) (memory : Memory F) : Memory F :=
  match policy.decayHalfLifeMillis with
  | none => memory
  | some halfLife => if 0 < halfLife then MemoryManager.decay S halfLife now isProtected memory else memory

def stale (policy : MemoryRetentionPolicy F) (now : ℕ) (memory : Memory F) : Bool :=
  policy.maxAgeMillis.any (fun maxAge => decide (maxAge < now - memory.createdAt)) ||
    policy.minImportance.any (fun minImportance => S.less memory.importance minImportance)

def rank (left right : Memory F) : Ordering :=
  (S.totalCmp right.importance left.importance).then
    ((compare right.createdAt left.createdAt).then (compare right.id left.id))

def ranked (policy : MemoryRetentionPolicy F) (now : ℕ) (isProtected : Memory F → Bool) (memory : Memory F) : Bool :=
  !isProtected memory && !stale S policy now memory

/-- A memory of a list that the policy removes: it is stale, or as many as may stay are ranked before it. -/
def Expires (policy : MemoryRetentionPolicy F) (now : ℕ) (isProtected : Memory F → Bool) (memories : List (Memory F))
    (memory : Memory F) : Prop :=
  isProtected memory = false ∧ (stale S policy now memory = true ∨ ∃ maxMemories ∈ policy.maxMemories,
    maxMemories ≤ (memories.filter (ranked S policy now isProtected)).countP fun other => (rank S other memory).isLT)

end

instance transCmp_comap {α β : Type} {cmp : β → β → Ordering} [Std.TransCmp cmp] (f : α → β) :
    Std.TransCmp fun a b => cmp (f b) (f a) where
  eq_swap := Std.OrientedCmp.eq_swap
  isLE_trans h h' := Std.TransCmp.isLE_trans h' h

theorem transCmp_rank (h : S.Ordered) : Std.TransCmp (rank S) := by
  have := h.totalCmp
  exact inferInstanceAs (Std.TransCmp (compareLex (fun a b : Memory F => S.totalCmp b.importance a.importance)
    (compareLex (fun a b => compare b.createdAt a.createdAt) fun a b => compare b.id a.id)))

theorem id_eq_of_rank {left right : Memory F} (h : rank S left right = .eq) : left.id = right.id := by
  unfold rank at h
  rw [Ordering.then_eq_eq, Ordering.then_eq_eq] at h
  exact (Std.LawfulEqCmp.compare_eq_iff_eq.mp h.2.2).symm

theorem mem_foldl_insert {α : Type} {id : α → String} {l : List α} {s : KeySet String} {key : String} :
    key ∈ l.foldl (fun s a => s.insert (id a)) s ↔ key ∈ s ∨ ∃ a ∈ l, id a = key := by
  induction l generalizing s with
  | nil => simp
  | cons a l ih =>
    rw [List.foldl_cons, ih, KeySet.mem_insert_iff]
    constructor
    · rintro ((h | h) | ⟨b, hb, h⟩)
      · exact .inr ⟨a, List.mem_cons_self, h⟩
      · exact .inl h
      · exact .inr ⟨b, List.mem_cons_of_mem _ hb, h⟩
    · rintro (h | ⟨b, hb, h⟩)
      · exact .inl (.inr h)
      · rcases List.mem_cons.mp hb with rfl | hb
        · exact .inl (.inl h)
        · exact .inr ⟨b, hb, h⟩

section

variable {policy : MemoryRetentionPolicy F} {now : ℕ} {isProtected : Memory F → Bool} {memories : List (Memory F)}

variable (S policy now isProtected memories) in
/-- The memories that are removed before the ranking. -/
def staleIds : KeySet String :=
  .ofList (((memories.filter fun memory => !isProtected memory).filter (stale S policy now)).map (·.id))

theorem mem_staleIds {id : String} : id ∈ staleIds S policy now isProtected memories ↔
    ∃ memory ∈ memories, memory.id = id ∧ isProtected memory = false ∧ stale S policy now memory = true := by
  unfold staleIds
  rw [Std.ExtTreeSet.mem_ofList, List.contains_iff_mem, List.mem_map]
  constructor
  · rintro ⟨memory, hmem, hid⟩
    obtain ⟨hmem, hstale⟩ := List.mem_filter.mp hmem
    obtain ⟨hmem, hunprotected⟩ := List.mem_filter.mp hmem
    exact ⟨memory, hmem, hid, by simpa using hunprotected, hstale⟩
  · rintro ⟨memory, hmem, hid, hunprotected, hstale⟩
    exact ⟨memory, List.mem_filter.mpr ⟨List.mem_filter.mpr ⟨hmem, by simpa using hunprotected⟩, hstale⟩, hid⟩

theorem retired_eq : MemoryManager.retired S policy now isProtected memories =
    policy.maxMemories.elim (staleIds S policy now isProtected memories) fun maxMemories =>
      ((((memories.filter fun memory => !isProtected memory).filter fun memory =>
        !(staleIds S policy now isProtected memories).contains memory.id).mergeSort fun a b => (rank S a b).isLE).drop
          maxMemories).foldl (fun removed memory => removed.insert memory.id)
        (staleIds S policy now isProtected memories) := by
  unfold MemoryManager.retired
  cases policy.maxMemories with
  | none => rfl
  | some maxMemories => rfl

theorem filter_ranked (hnd : (memories.map (·.id)).Nodup) :
    ((memories.filter fun memory => !isProtected memory).filter fun memory =>
      !(staleIds S policy now isProtected memories).contains memory.id) =
      memories.filter (ranked S policy now isProtected) := by
  rw [List.filter_filter]
  refine List.filter_congr fun memory hmemory => ?_
  unfold ranked
  rw [Bool.and_comm]
  cases hprotected : isProtected memory with
  | true => rfl
  | false =>
    congr 2
    rw [Bool.eq_iff_iff, ← Std.ExtTreeSet.mem_iff_contains, mem_staleIds]
    constructor
    · rintro ⟨other, hother, hid, -, hstale⟩
      rwa [← List.inj_on_of_nodup_map hnd hother hmemory hid]
    · intro hstale
      exact ⟨memory, hmemory, rfl, hprotected, hstale⟩

theorem eq_of_rank (hnd : (memories.map (·.id)).Nodup) (p : Memory F → Bool) :
    ∀ a ∈ memories.filter p, ∀ b ∈ memories.filter p, rank S a b = .eq → a = b := by
  intro a ha b hb heq
  exact List.inj_on_of_nodup_map hnd (List.mem_filter.mp ha).1 (List.mem_filter.mp hb).1 (id_eq_of_rank heq)

theorem mem_retired (h : S.Ordered) (hnd : (memories.map (·.id)).Nodup) {id : String} :
    id ∈ MemoryManager.retired S policy now isProtected memories ↔
      ∃ memory ∈ memories, memory.id = id ∧ Expires S policy now isProtected memories memory := by
  have htrans := transCmp_rank h
  rw [retired_eq]
  unfold Expires
  cases hmax : policy.maxMemories with
  | none =>
    rw [Option.elim_none, mem_staleIds]
    simp
  | some maxMemories =>
    have hcut := mem_drop_mergeSort (hnd.of_map.filter _)
      (eq_of_rank (S := S) hnd (ranked S policy now isProtected)) maxMemories
    rw [Option.elim_some, mem_foldl_insert, filter_ranked hnd, mem_staleIds]
    constructor
    · rintro (⟨memory, hmem, hid, hunprotected, hstale⟩ | ⟨memory, hmem, hid⟩)
      · exact ⟨memory, hmem, hid, hunprotected, .inl hstale⟩
      · obtain ⟨hranked, hcount⟩ := (hcut memory).mp hmem
        obtain ⟨hmem, hpasses⟩ := List.mem_filter.mp hranked
        obtain ⟨hunprotected, -⟩ := Bool.and_eq_true_iff.mp hpasses
        exact ⟨memory, hmem, hid, by simpa using hunprotected, .inr ⟨maxMemories, rfl, hcount⟩⟩
    · rintro ⟨memory, hmem, hid, hunprotected, hexpires⟩
      by_cases hstale : stale S policy now memory = true
      · exact .inl ⟨memory, hmem, hid, hunprotected, hstale⟩
      · obtain ⟨_, hmax', hcount⟩ := hexpires.resolve_left hstale
        cases hmax'
        refine .inr ⟨memory, (hcut memory).mpr ⟨List.mem_filter.mpr ⟨hmem, ?_⟩, hcount⟩, hid⟩
        unfold ranked
        rw [Bool.not_eq_true] at hstale
        rw [hunprotected, hstale]
        rfl

theorem length_kept_le (hnd : (memories.map (·.id)).Nodup) {maxMemories : ℕ}
    (hmax : policy.maxMemories = some maxMemories) :
    (memories.filter fun memory => !isProtected memory &&
      !(MemoryManager.retired S policy now isProtected memories).contains memory.id).length ≤ maxMemories := by
  set sorted := (memories.filter (ranked S policy now isProtected)).mergeSort fun a b => (rank S a b).isLE with hsorted
  have hmem : ∀ memory, memory ∈ sorted ↔ memory ∈ memories.filter (ranked S policy now isProtected) :=
    fun memory => (List.mergeSort_perm _ _).mem_iff
  have hretired : ∀ key : String, key ∈ MemoryManager.retired S policy now isProtected memories ↔
      key ∈ staleIds S policy now isProtected memories ∨ ∃ memory ∈ sorted.drop maxMemories, memory.id = key := by
    intro key
    rw [retired_eq, hmax, Option.elim_some, mem_foldl_insert, filter_ranked hnd]
  have hsub : (memories.filter fun memory => !isProtected memory &&
      !(MemoryManager.retired S policy now isProtected memories).contains memory.id) ⊆ sorted.take maxMemories := by
    intro memory hmemory
    obtain ⟨hin, hboth⟩ := List.mem_filter.mp hmemory
    obtain ⟨hunprotected, hstays⟩ := Bool.and_eq_true_iff.mp hboth
    have hnot : memory.id ∉ MemoryManager.retired S policy now isProtected memories := by
      rw [Std.ExtTreeSet.mem_iff_contains, Bool.not_eq_true]
      exact Bool.not_eq_true' _ ▸ hstays
    rw [hretired] at hnot
    have hnotStale : stale S policy now memory = false := by
      rw [Bool.eq_false_iff]
      exact fun hstale => hnot (.inl (mem_staleIds.mpr ⟨memory, hin, rfl, by simpa using hunprotected, hstale⟩))
    have hranked : memory ∈ sorted := by
      rw [hmem, List.mem_filter]
      refine ⟨hin, ?_⟩
      unfold ranked
      rw [hunprotected, hnotStale]
      rfl
    rw [← List.take_append_drop maxMemories sorted, List.mem_append] at hranked
    exact hranked.resolve_right fun hdropped => hnot (.inr ⟨memory, hdropped, rfl⟩)
  have hlen := (List.subperm_of_subset (hnd.of_map.filter _) hsub).length_le
  rw [List.length_take] at hlen
  omega

end

end AnimaCore.AnimaMemory
