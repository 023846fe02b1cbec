import AnimaCore.AnimaMemory.Indexed

/-!
# AnimaCore.AnimaMemory.Filed — every record under its own identifier

* `Filed id t`: the values of `t` are kept under their own identifiers.
* `FiledRecords m`: this holds of the relationships and the temporal records of a store; `Indexed` has it for the memories.
-/

namespace AnimaCore.AnimaMemory

open Lib

/-! ## Tables -/

section

variable {ν : Type} {id : ν → String} {t t' : Table String ν}

/-- The values are kept under their own identifiers. -/
def Filed (id : ν → String) (t : Table String ν) : Prop := ∀ (key : String) v, t[key]? = some v → id v = key

namespace Filed

theorem sub (h : Filed id t) (hsub : ∀ (key : String) v', t'[key]? = some v' → ∃ v, t[key]? = some v ∧ id v' = id v) :
    Filed id t' := by
  intro key v' hv'
  obtain ⟨v, hv, hid⟩ := hsub key v' hv'
  exact hid.trans (h key v hv)

theorem map (h : Filed id t) {f : ν → ν} (hf : ∀ v, id (f v) = id v) : Filed id (t.map fun _ => f) := by
  refine h.sub fun key v' hv' => ?_
  rw [Std.ExtTreeMap.getElem?_map] at hv'
  obtain ⟨v, hv, rfl⟩ := Option.map_eq_some_iff.mp hv'
  exact ⟨v, hv, hf v⟩

theorem eraseAll (h : Filed id t) (keys : List String) : Filed id (t.eraseAll keys) :=
  h.sub fun _ v hv => ⟨v, Table.getElem?_of_eraseAll hv, rfl⟩

theorem filter (h : Filed id t) (keep : String → ν → Bool) : Filed id (t.filter keep) :=
  h.sub fun _ v hv => ⟨v, Table.getElem?_of_filter hv, rfl⟩

theorem insert (h : Filed id t) {key : String} {v : ν} (hkey : id v = key) : Filed id (t.insert key v) := by
  intro a found hfound
  rw [Table.getElem?_insert_eq] at hfound
  by_cases ha : key = a
  · rw [if_pos ha] at hfound
    cases hfound
    exact hkey.trans ha
  · rw [if_neg ha] at hfound
    exact h a found hfound

theorem modifyAll (h : Filed id t) {f : ν → ν} (hid : ∀ v, id (f v) = id v) (hidem : ∀ v, f (f v) = f v)
    (keys : List String) : Filed id (t.modifyAll keys f) := by
  refine h.sub fun key v' hv' => ?_
  rw [Table.getElem?_modifyAll hidem] at hv'
  by_cases hkey : key ∈ keys
  · rw [if_pos hkey] at hv'
    obtain ⟨v, hv, rfl⟩ := Option.map_eq_some_iff.mp hv'
    exact ⟨v, hv, hid v⟩
  · rw [if_neg hkey] at hv'
    exact ⟨v', hv', rfl⟩

theorem load (l : List ν) : Filed id (Table.load id ∅ l) := by
  intro key v hv
  rcases Table.getElem?_load hv with ⟨hkey, -⟩ | hempty
  · exact hkey
  · simp at hempty

end Filed

end

/-! ## Stores -/

variable {F : Type} {S : Setting F}

/-- The relationships and the temporal records are kept under their own identifiers. -/
structure FiledRecords (m : MemoryManager F) : Prop where
  relationships : Filed (·.id) m.agentRelationships
  facts : Filed (·.id) m.temporalFacts
  temporalRelationships : Filed (·.id) m.temporalRelationships

namespace FiledRecords

variable {m m' : MemoryManager F}

theorem new : FiledRecords (MemoryManager.new : MemoryManager F) where
  relationships key v hv := absurd hv (by simp [MemoryManager.new])
  facts key v hv := absurd hv (by simp [MemoryManager.new])
  temporalRelationships key v hv := absurd hv (by simp [MemoryManager.new])

theorem of_eq (h : FiledRecords m) (hrelationships : m'.agentRelationships = m.agentRelationships)
    (hfacts : m'.temporalFacts = m.temporalFacts) (htemporal : m'.temporalRelationships = m.temporalRelationships) :
    FiledRecords m' :=
  ⟨hrelationships ▸ h.relationships, hfacts ▸ h.facts, htemporal ▸ h.temporalRelationships⟩

theorem foldl {α : Type} (h : FiledRecords m) (f : MemoryManager F → α → MemoryManager F)
    (hf : ∀ m a, (f m a).agentRelationships = m.agentRelationships ∧ (f m a).temporalFacts = m.temporalFacts ∧
      (f m a).temporalRelationships = m.temporalRelationships) (l : List α) : FiledRecords (l.foldl f m) := by
  induction l generalizing m with
  | nil => exact h
  | cons a l ih => exact ih (h.of_eq (hf m a).1 (hf m a).2.1 (hf m a).2.2)

theorem foldl_putMemory (h : FiledRecords m) (memories : List (Memory F)) :
    FiledRecords (memories.foldl (MemoryManager.putMemory S) m) :=
  h.foldl (MemoryManager.putMemory S) (fun _ _ => ⟨rfl, rfl, rfl⟩) memories

theorem foldl_forget (h : FiledRecords m) (ids : List String) : FiledRecords (ids.foldl MemoryManager.forget m) :=
  h.foldl MemoryManager.forget (fun _ _ => ⟨rfl, rfl, rfl⟩) ids

theorem replaceSnapshot (m : MemoryManager F) (clock : String → ℕ) (s : MemoryManagerSnapshot F) :
    FiledRecords (m.replaceSnapshot S clock s) where
  relationships := by
    rw [replaceSnapshot_agentRelationships]
    exact Filed.load _
  facts := by
    rw [replaceSnapshot_temporalFacts]
    exact Filed.load _
  temporalRelationships := by
    rw [replaceSnapshot_temporalRelationships]
    exact Filed.load _

theorem retain (h : FiledRecords m) (policy : MemoryRetentionPolicy F) (now : ℕ) (isProtected : Memory F → Bool) :
    FiledRecords (m.retain S policy now isProtected) := by
  have hstart : FiledRecords { m with memories := m.decayedMemories S policy now isProtected } := h.of_eq rfl rfl rfl
  have hkept : FiledRecords ((MemoryManager.retired S policy now isProtected
      (Table.vals (m.decayedMemories S policy now isProtected))).toList.foldl MemoryManager.forget
      { m with memories := m.decayedMemories S policy now isProtected }) :=
    hstart.foldl_forget _
  refine ⟨?_, hkept.facts, hkept.temporalRelationships⟩
  show Filed _ (MemoryManager.pruneRelationshipEvidence m.agentRelationships _).1
  unfold MemoryManager.pruneRelationshipEvidence
  split_ifs
  · exact h.relationships
  · refine Filed.eraseAll ?_ _
    exact h.relationships.map fun _ => rfl

theorem deleteMemory (h : FiledRecords m) (id : String) : FiledRecords (m.deleteMemory id).2 := by
  unfold MemoryManager.deleteMemory
  by_cases hid : id ∉ m.memories
  · rw [if_pos hid]
    exact h
  · rw [if_neg hid]
    refine ⟨Filed.eraseAll ?_ _, ?_, ?_⟩
    · refine h.relationships.map fun r => ?_
      split_ifs <;> rfl
    · exact h.facts.map fun _ => rfl
    · exact h.temporalRelationships.map fun _ => rfl

theorem step {p : Process F} (h : FiledRecords p.manager) (op : Op S) : FiledRecords (step S p op).manager := by
  have heffect := step_effect p op
  generalize (AnimaMemory.step S p op).manager = m' at heffect
  cases heffect with
  | same => exact h
  | added now memory => exact h.of_eq rfl rfl rfl
  | rewritten hold hid hagent hname => exact h.of_eq rfl rfl rfl
  | entity now kind aliases summary hid hname => exact h.of_eq rfl rfl rfl
  | related key hcall hsource htarget hkey =>
    refine ⟨h.relationships.insert ?_, h.facts, h.temporalRelationships⟩
    rcases hkey with ⟨old, hold, hid, -⟩ | ⟨hkey, -⟩
    · exact hid.trans (h.relationships key old hold)
    · exact hkey.symm
  | fact hid hrange hsubject hobject hfrom =>
    refine ⟨h.relationships, Filed.insert ?_ rfl, h.temporalRelationships⟩
    refine h.facts.modifyAll ?_ (MemoryManager.supersedeFact_idem _ _) _
    exact fun _ => rfl
  | temporalRelationship hid hrange hsource htarget hfrom =>
    refine ⟨h.relationships, h.facts, Filed.insert ?_ rfl⟩
    refine h.temporalRelationships.modifyAll ?_ (MemoryManager.supersedeRelationship_idem _ _) _
    exact fun _ => rfl
  | forgotTemporalFact id =>
    refine ⟨h.relationships, Filed.map ?_ fun _ => rfl, h.temporalRelationships⟩
    exact h.facts.sub fun _ v hv => ⟨v, Table.getElem?_of_erase hv, rfl⟩
  | forgotTemporalRelationship id =>
    refine ⟨h.relationships, h.facts, Filed.map ?_ fun _ => rfl⟩
    exact h.temporalRelationships.sub fun _ v hv => ⟨v, Table.getElem?_of_erase hv, rfl⟩
  | forgotAgentRelationship id =>
    exact ⟨h.relationships.sub fun _ v hv => ⟨v, Table.getElem?_of_erase hv, rfl⟩, h.facts, h.temporalRelationships⟩
  | forgot id => exact h.of_eq rfl rfl rfl
  | retained policy now isProtected => exact h.retain policy now isProtected
  | cleared agentId =>
    rcases agentId with _ | agentId
    · exact FiledRecords.new
    · exact ⟨h.relationships.filter _, h.facts.filter _, h.temporalRelationships.filter _⟩
  | replaced clock snapshot => exact FiledRecords.replaceSnapshot p.manager clock snapshot
  | deleted id => exact h.deleteMemory id
  | withoutEntity hin howner =>
    exact ⟨h.relationships.eraseAll _, (h.facts.eraseAll _).map fun _ => rfl,
      (h.temporalRelationships.eraseAll _).map fun _ => rfl⟩
  | consolidated prepared hbefore => exact h.foldl_putMemory _
  | undone prepared hafter =>
    have hput := h.foldl_putMemory (S := S) prepared.1.sourcesBefore
    exact hput.of_eq rfl rfl rfl

end FiledRecords

theorem filed_run (S : Setting F) (counters : Counters) (calls : List (Op S)) :
    FiledRecords (run (step S) (Process.new counters) calls).manager ∧
    Indexed S (run (step S) (Process.new counters) calls).manager :=
  run_induction (step S) (Process.new counters) (P := fun _ p => FiledRecords p.manager ∧ Indexed S p.manager) calls
    ⟨FiledRecords.new, Indexed.new⟩ fun _ op h => ⟨h.1.step op, h.2.step op⟩

end AnimaCore.AnimaMemory
