import AnimaCore.AnimaMemory.Effects

/-!
# AnimaCore.AnimaMemory.Restore — a snapshot restores what was saved

Loading recreates an entity from anything that names it, so a store comes back as it was if everything that is named is there.

* `Mention`: one place where a record names an entity; `Memory.mentions` and so on.
* `Closed m`: records are kept under their own identifiers, and every entity that is named is there.
* `Closed.restored`: loading the snapshot of such a store gives its records and entities.
* `Tidy`: a call removes an entity only with everything that names it.
-/

namespace AnimaCore.AnimaMemory

open Lib

variable {F : Type} {S : Setting F}

/-! ## Mentions -/

structure Mention where
  kind : RelationshipEndpointKind
  id : String
  name : String

def Mention.key (μ : Mention) : String := entityKey μ.kind (trim μ.id)

/-- No entity is made from a blank identifier or name. -/
def Mention.Blank (μ : Mention) : Prop := trim μ.id = "" ∨ trim μ.name = ""

def Memory.mentions (memory : Memory F) : List Mention := [⟨.agent, memory.agentId, memory.agentName⟩]

def AgentRelationship.mentions (r : AgentRelationship F) : List Mention :=
  [⟨r.sourceKind, r.sourceAgentId, r.sourceAgentName⟩, ⟨r.targetKind, r.targetAgentId, r.targetAgentName⟩]

def objectMention (kind : Option RelationshipEndpointKind) (id name : Option String) : List Mention :=
  match kind, id, name with
  | some kind, some id, some name => [⟨kind, id, name⟩]
  | _, _, _ => []

theorem mem_objectMention {kind : Option RelationshipEndpointKind} {id name : Option String} {μ : Mention}
    (h : μ ∈ objectMention kind id name) : kind = some μ.kind ∧ id = some μ.id ∧ name = some μ.name := by
  rcases kind with _ | kind
  · exact absurd h (by simp [objectMention])
  · rcases id with _ | id
    · exact absurd h (by simp [objectMention])
    · rcases name with _ | name
      · exact absurd h (by simp [objectMention])
      · obtain rfl := List.mem_singleton.mp h
        exact ⟨rfl, rfl, rfl⟩

def TemporalFact.mentions (f : TemporalFact F) : List Mention :=
  ⟨f.subjectKind, f.subjectId, f.subjectName⟩ :: objectMention f.objectKind f.objectId f.objectName

/-- The entities that a temporal relationship names. -/
def TemporalRelationship.mentions (r : TemporalRelationship F) : List Mention :=
  [⟨r.sourceKind, r.sourceId, r.sourceName⟩, ⟨r.targetKind, r.targetId, r.targetName⟩]

theorem entityKey_inj {kind kind' : RelationshipEndpointKind} {id id' : String}
    (h : entityKey kind id = entityKey kind' id') : kind = kind' ∧ id = id' := by
  have hlist := congrArg String.toList h
  simp only [entityKey, String.toList_append] at hlist
  have hkind : kind = kind' := by
    have hhead := congrArg List.head? hlist
    cases kind <;> cases kind' <;> first | rfl | exact absurd hhead (by simp [RelationshipEndpointKind.asStr])
  subst hkind
  exact ⟨rfl, String.toList_inj.mp (List.append_cancel_left hlist)⟩

/-! ## Entities that are there -/

/-- The entities `μ` names are there. -/
def Present (entities : Table String MemoryEntity) (mentions : List Mention) : Prop :=
  ∀ μ ∈ mentions, ¬ μ.Blank → μ.key ∈ entities

/-- The identifiers have no white space around them. -/
def Trimmed (mentions : List Mention) : Prop := ∀ μ ∈ mentions, trim μ.id = μ.id

def Keyed (entities : Table String MemoryEntity) : Prop :=
  ∀ (key : String) e, entities[key]? = some e → entityKey e.kind e.id = key

/-- The entities of `e` are among those of `e'`. -/
def Grown (e e' : Table String MemoryEntity) : Prop := ∀ key : String, key ∈ e → key ∈ e'

theorem Grown.rfl {e : Table String MemoryEntity} : Grown e e := fun _ h => h

theorem Grown.trans {e e' e'' : Table String MemoryEntity} (h : Grown e e') (h' : Grown e' e'') : Grown e e'' :=
  fun key hkey => h' key (h key hkey)

theorem Grown.insert (e : Table String MemoryEntity) (key : String) (entity : MemoryEntity) :
    Grown e (e.insert key entity) := by
  intro a ha
  rw [Std.ExtTreeMap.mem_insert]
  exact .inr ha

theorem Present.mono {e e' : Table String MemoryEntity} {mentions : List Mention} (h : Present e mentions)
    (hgrown : Grown e e') : Present e' mentions := fun μ hμ hblank => hgrown _ (h μ hμ hblank)

theorem Present.append {e : Table String MemoryEntity} {l l' : List Mention} (h : Present e l) (h' : Present e l') :
    Present e (l ++ l') := by
  intro μ hμ
  rcases List.mem_append.mp hμ with hl | hl'
  · exact h μ hl
  · exact h' μ hl'

theorem Keyed.insert {e : Table String MemoryEntity} (h : Keyed e) {key : String} {entity : MemoryEntity}
    (hkey : entityKey entity.kind entity.id = key) : Keyed (e.insert key entity) := by
  intro a found hfound
  rw [Table.getElem?_insert_eq] at hfound
  split_ifs at hfound with ha
  · obtain rfl := Option.some.inj hfound
    exact hkey.trans ha
  · exact h a found hfound

namespace MemoryManager

theorem ensureEntity_spec (e : Table String MemoryEntity) (now : ℕ) (kind : RelationshipEndpointKind) (id name : String) :
    Grown e (ensureEntity e now kind id name) ∧ Present (ensureEntity e now kind id name) [⟨kind, id, name⟩] ∧
    (Keyed e → Keyed (ensureEntity e now kind id name)) := by
  unfold ensureEntity
  by_cases hblank : trim id = "" ∨ trim name = ""
  · rw [if_pos hblank]
    refine ⟨.rfl, fun μ hμ hnot => ?_, fun h => h⟩
    obtain rfl := List.mem_singleton.mp hμ
    exact absurd hblank hnot
  · rw [if_neg hblank]
    by_cases hin : entityKey kind (trim id) ∈ e
    · rw [if_pos hin]
      refine ⟨.rfl, fun μ hμ _ => ?_, fun h => h⟩
      obtain rfl := List.mem_singleton.mp hμ
      exact hin
    · rw [if_neg hin]
      refine ⟨.insert e _ _, fun μ hμ _ => ?_, fun h => h.insert rfl⟩
      obtain rfl := List.mem_singleton.mp hμ
      exact Std.ExtTreeMap.mem_insert_self

theorem ensureEntity_of_present {e : Table String MemoryEntity} {mentions : List Mention} (h : Present e mentions) (now : ℕ)
    {kind : RelationshipEndpointKind} {id name : String} (hμ : ⟨kind, id, name⟩ ∈ mentions) :
    ensureEntity e now kind id name = e := by
  unfold ensureEntity
  by_cases hblank : trim id = "" ∨ trim name = ""
  · rw [if_pos hblank]
  · have hin : entityKey kind (trim id) ∈ e := h _ hμ hblank
    rw [if_neg hblank, if_pos hin]

theorem upsertEntityParts_spec (e : Table String MemoryEntity) (now : ℕ) (kind : RelationshipEndpointKind) {id : String}
    (name : String) (aliases : List String) (summary : Option String) (hid : trim id = id) :
    Grown e (upsertEntityParts e now kind id name aliases summary) ∧
    Present (upsertEntityParts e now kind id name aliases summary) [⟨kind, id, name⟩] ∧
    (Keyed e → Keyed (upsertEntityParts e now kind id name aliases summary)) := by
  unfold upsertEntityParts
  refine ⟨.insert e _ _, fun μ hμ _ => ?_, fun h => h.insert ?_⟩
  · obtain rfl := List.mem_singleton.mp hμ
    show entityKey kind (trim id) ∈ _
    rw [hid]
    exact Std.ExtTreeMap.mem_insert_self
  · unfold upsertedEntity
    rcases hold : e[entityKey kind id]? with _ | existing
    · rfl
    · exact h _ existing hold

end MemoryManager

/-! ## Records that are carried over -/

section

variable {ν : Type} (id : ν → String) (mentions : ν → List Mention)

/-- Records are kept under their own identifiers, and are good. -/
def Fits (good : ν → Prop) (t : Table String ν) : Prop := ∀ (k : String) v, t[k]? = some v → id v = k ∧ good v

/-- The records of `t'` are those of `t`, less some, with what they name; or they are new and good. -/
def Carried (good : ν → Prop) (t t' : Table String ν) : Prop :=
  ∀ (k : String) v', t'[k]? = some v' →
    (∃ v, t[k]? = some v ∧ id v' = id v ∧ mentions v' = mentions v) ∨ (id v' = k ∧ good v')

/-- The records of `t'` are those of `t` that do not name `gone`. -/
def Shed (gone : String) (t t' : Table String ν) : Prop :=
  ∀ (k : String) v', t'[k]? = some v' →
    ∃ v, t[k]? = some v ∧ id v' = id v ∧ mentions v' = mentions v ∧ ∀ μ ∈ mentions v, ¬ μ.Blank → μ.key ≠ gone

variable {id mentions} {good : ν → Prop} {t t' : Table String ν}

namespace Carried

theorem sub (h : ∀ (k : String) v, t'[k]? = some v → t[k]? = some v) : Carried id mentions good t t' :=
  fun k v hv => .inl ⟨v, h k v hv, rfl, rfl⟩

theorem refl : Carried id mentions good t t := sub fun _ _ h => h

theorem map {f : ν → ν} (hid : ∀ v, id (f v) = id v) (hmentions : ∀ v, mentions (f v) = mentions v)
    (h : ∀ (k : String) v, t'[k]? = some v → t[k]? = some v) : Carried id mentions good t (t'.map fun _ => f) := by
  intro k v' hv'
  rw [Std.ExtTreeMap.getElem?_map] at hv'
  obtain ⟨v, hv, rfl⟩ := Option.map_eq_some_iff.mp hv'
  exact .inl ⟨v, h k v hv, hid v, hmentions v⟩

theorem eraseAll (h : Carried id mentions good t t') (keys : List String) :
    Carried id mentions good t (t'.eraseAll keys) := fun k v hv => h k v (Table.getElem?_of_eraseAll hv)

theorem insert (h : Carried id mentions good t t') {k : String} {v : ν} (hid : id v = k) (hgood : good v) :
    Carried id mentions good t (t'.insert k v) := by
  intro a found hfound
  rw [Table.getElem?_insert_eq] at hfound
  split_ifs at hfound with ha
  · obtain rfl := Option.some.inj hfound
    exact .inr ⟨hid.trans ha, hgood⟩
  · exact h a found hfound

theorem modifyAll {f : ν → ν} (hid : ∀ v, id (f v) = id v) (hmentions : ∀ v, mentions (f v) = mentions v)
    (hidem : ∀ v, f (f v) = f v) (keys : List String) : Carried id mentions good t (t.modifyAll keys f) := by
  intro k v' hv'
  rw [Table.getElem?_modifyAll hidem] at hv'
  split_ifs at hv'
  · obtain ⟨v, hv, rfl⟩ := Option.map_eq_some_iff.mp hv'
    exact .inl ⟨v, hv, hid v, hmentions v⟩
  · exact .inl ⟨v', hv', rfl, rfl⟩

end Carried

theorem Shed.map {gone : String} {f : ν → ν} (hid : ∀ v, id (f v) = id v) (hmentions : ∀ v, mentions (f v) = mentions v)
    (h : Shed id mentions gone t t') : Shed id mentions gone t (t'.map fun _ => f) := by
  intro k v' hv'
  rw [Std.ExtTreeMap.getElem?_map] at hv'
  obtain ⟨v, hv, rfl⟩ := Option.map_eq_some_iff.mp hv'
  obtain ⟨old, hold, hsame, hnamed, hgone⟩ := h k v hv
  exact ⟨old, hold, (hid v).trans hsame, (hmentions v).trans hnamed, hgone⟩

end

/-! ## Closed stores -/

/-- The identifiers of the mentions are trimmed, and their entities are there. -/
def Neat (e : Table String MemoryEntity) (mentions : List Mention) : Prop := Trimmed mentions ∧ Present e mentions

/-- Records are kept under their own identifiers, and every entity that is named is there. -/
structure Closed (m : MemoryManager F) : Prop where
  entities : Keyed m.memoryEntities
  memories : Fits (·.id) (fun x => Present m.memoryEntities x.mentions) m.memories
  relationships : Fits (·.id) (fun r => Neat m.memoryEntities r.mentions) m.agentRelationships
  facts : Fits (·.id) (fun f => Neat m.memoryEntities f.mentions) m.temporalFacts
  temporalRelationships : Fits (·.id) (fun r => Neat m.memoryEntities r.mentions) m.temporalRelationships

theorem Fits.carry {ν : Type} {id : ν → String} {mentions : ν → List Mention} {good good' : List Mention → Prop}
    {t t' : Table String ν} (h : Fits id (fun v => good (mentions v)) t)
    (hcarried : Carried id mentions (fun v => good' (mentions v)) t t') (hmono : ∀ l, good l → good' l) :
    Fits id (fun v => good' (mentions v)) t' := by
  intro k v' hv'
  rcases hcarried k v' hv' with ⟨v, hv, hid, hmentions⟩ | hnew
  · obtain ⟨hk, hgood⟩ := h k v hv
    refine ⟨hid.trans hk, ?_⟩
    show good' (mentions v')
    rw [hmentions]
    exact hmono _ hgood
  · exact hnew

theorem Fits.shed {ν : Type} {id : ν → String} {mentions : ν → List Mention} {good good' : List Mention → Prop}
    {t t' : Table String ν} {gone : String} (h : Fits id (fun v => good (mentions v)) t)
    (hshed : Shed id mentions gone t t')
    (hmono : ∀ l, good l → (∀ μ ∈ l, ¬ μ.Blank → μ.key ≠ gone) → good' l) : Fits id (fun v => good' (mentions v)) t' := by
  intro k v' hv'
  obtain ⟨v, hv, hid, hmentions, hgone⟩ := hshed k v' hv'
  obtain ⟨hk, hgood⟩ := h k v hv
  refine ⟨hid.trans hk, ?_⟩
  show good' (mentions v')
  rw [hmentions]
  exact hmono _ hgood hgone

namespace Closed

variable {m m' : MemoryManager F}

theorem new : Closed (MemoryManager.new : MemoryManager F) where
  entities key e he := absurd he (by simp [MemoryManager.new])
  memories k v hv := absurd hv (by simp [MemoryManager.new])
  relationships k v hv := absurd hv (by simp [MemoryManager.new])
  facts k v hv := absurd hv (by simp [MemoryManager.new])
  temporalRelationships k v hv := absurd hv (by simp [MemoryManager.new])

theorem write (h : Closed m) (hgrown : Grown m.memoryEntities m'.memoryEntities) (hkeyed : Keyed m'.memoryEntities)
    (hmemories : Carried (·.id) Memory.mentions (fun x => Present m'.memoryEntities x.mentions) m.memories m'.memories)
    (hrelationships : Carried (·.id) AgentRelationship.mentions (fun r => Neat m'.memoryEntities r.mentions)
      m.agentRelationships m'.agentRelationships)
    (hfacts : Carried (·.id) TemporalFact.mentions (fun f => Neat m'.memoryEntities f.mentions) m.temporalFacts
      m'.temporalFacts)
    (htemporal : Carried (·.id) TemporalRelationship.mentions (fun r => Neat m'.memoryEntities r.mentions)
      m.temporalRelationships m'.temporalRelationships) : Closed m' where
  entities := hkeyed
  memories := h.memories.carry hmemories fun _ hl => hl.mono hgrown
  relationships := h.relationships.carry hrelationships fun _ hl => ⟨hl.1, hl.2.mono hgrown⟩
  facts := h.facts.carry hfacts fun _ hl => ⟨hl.1, hl.2.mono hgrown⟩
  temporalRelationships := h.temporalRelationships.carry htemporal fun _ hl => ⟨hl.1, hl.2.mono hgrown⟩

theorem shed (h : Closed m) (gone : String)
    (hentities : ∀ key : String, m'.memoryEntities[key]? = if gone = key then none else m.memoryEntities[key]?)
    (hmemories : Shed (·.id) Memory.mentions gone m.memories m'.memories)
    (hrelationships : Shed (·.id) AgentRelationship.mentions gone m.agentRelationships m'.agentRelationships)
    (hfacts : Shed (·.id) TemporalFact.mentions gone m.temporalFacts m'.temporalFacts)
    (htemporal : Shed (·.id) TemporalRelationship.mentions gone m.temporalRelationships m'.temporalRelationships) :
    Closed m' := by
  have hpresent : ∀ l, Present m.memoryEntities l → (∀ μ ∈ l, ¬ μ.Blank → μ.key ≠ gone) →
      Present m'.memoryEntities l := by
    intro l hl hgone μ hμ hblank
    have hin := hl μ hμ hblank
    rw [Table.mem_iff_getElem?_isSome] at hin ⊢
    rw [hentities, if_neg (hgone μ hμ hblank).symm]
    exact hin
  refine ⟨fun key e he => ?_, h.memories.shed hmemories hpresent,
    h.relationships.shed hrelationships fun l hl hgone => ⟨hl.1, hpresent l hl.2 hgone⟩,
    h.facts.shed hfacts fun l hl hgone => ⟨hl.1, hpresent l hl.2 hgone⟩,
    h.temporalRelationships.shed htemporal fun l hl hgone => ⟨hl.1, hpresent l hl.2 hgone⟩⟩
  rw [hentities] at he
  split_ifs at he
  exact h.entities key e he

theorem putMemory (h : Closed m) {memory : Memory F} (hpresent : Present m.memoryEntities memory.mentions) :
    Closed (m.putMemory S memory) :=
  h.write .rfl h.entities (.insert .refl rfl hpresent) .refl .refl .refl

theorem foldl_putMemory (h : Closed m) {memories : List (Memory F)}
    (hpresent : ∀ memory ∈ memories, Present m.memoryEntities memory.mentions) :
    Closed (memories.foldl (MemoryManager.putMemory S) m) := by
  have hboth : Closed (memories.foldl (MemoryManager.putMemory S) m) ∧
      (memories.foldl (MemoryManager.putMemory S) m).memoryEntities = m.memoryEntities := by
    refine List.foldlRecOn memories (motive := fun m' => Closed m' ∧ m'.memoryEntities = m.memoryEntities) _ ⟨h, rfl⟩ ?_
    rintro m' ⟨hm', hsame⟩ memory hmemory
    refine ⟨hm'.putMemory ?_, hsame⟩
    rw [hsame]
    exact hpresent memory hmemory
  exact hboth.1

theorem forget (h : Closed m) (id : String) : Closed (m.forget id) :=
  h.write .rfl h.entities (.sub fun _ _ => Table.getElem?_of_erase) .refl .refl .refl

theorem foldl_forget (h : Closed m) (ids : List String) : Closed (ids.foldl MemoryManager.forget m) :=
  List.foldlRecOn ids _ h fun _ hm id _ => hm.forget id

/-! ### Loading -/

section

variable (clock : String → ℕ)

theorem loadMemory (h : Closed m) (memory : Memory F) : Closed (m.loadMemory S clock memory) := by
  obtain ⟨hgrown, hpresent, hkeyed⟩ := MemoryManager.ensureEntity_spec m.memoryEntities
    (clock (entityKey .agent (trim memory.agentId))) .agent memory.agentId memory.agentName
  exact h.write hgrown (hkeyed h.entities) (.insert .refl rfl hpresent) .refl .refl .refl

theorem loadEntity (h : Closed m) (entity : MemoryEntity) : Closed (m.loadEntity entity) :=
  h.write (.insert _ _ _) (h.entities.insert rfl) .refl .refl .refl .refl

theorem ensureNamed_twice {e e' : Table String MemoryEntity} {kind kind' : RelationshipEndpointKind} {id name id' name' : String}
    (he' : e' = MemoryManager.ensureNamed clock (MemoryManager.ensureNamed clock e kind id name) kind' id' name') :
    Grown e e' ∧ Present e' [⟨kind, id, name⟩, ⟨kind', id', name'⟩] ∧ (Keyed e → Keyed e') := by
  obtain ⟨hgrown, hpresent, hkeyed⟩ := MemoryManager.ensureEntity_spec e (clock (entityKey kind (trim id))) kind id name
  obtain ⟨hgrown', hpresent', hkeyed'⟩ := MemoryManager.ensureEntity_spec
    (MemoryManager.ensureNamed clock e kind id name) (clock (entityKey kind' (trim id'))) kind' id' name'
  rw [he']
  exact ⟨hgrown.trans hgrown', (hpresent.mono hgrown').append hpresent', fun h => hkeyed' (hkeyed h)⟩

theorem loadRelationship (h : Closed m) {r : AgentRelationship F} (htrimmed : Trimmed r.mentions) :
    Closed (m.loadRelationship clock r) := by
  have hentities : (m.loadRelationship clock r).memoryEntities = MemoryManager.ensureNamed clock
      (MemoryManager.ensureNamed clock m.memoryEntities r.sourceKind r.sourceAgentId r.sourceAgentName) r.targetKind
      r.targetAgentId r.targetAgentName := rfl
  obtain ⟨hgrown, hpresent, hkeyed⟩ := ensureNamed_twice clock hentities
  exact h.write hgrown (hkeyed h.entities) .refl (.insert .refl rfl ⟨htrimmed, hpresent⟩) .refl .refl

theorem loadTemporalRelationship (h : Closed m) {r : TemporalRelationship F} (htrimmed : Trimmed r.mentions) :
    Closed (m.loadTemporalRelationship clock r) := by
  have hentities : (m.loadTemporalRelationship clock r).memoryEntities = MemoryManager.ensureNamed clock
      (MemoryManager.ensureNamed clock m.memoryEntities r.sourceKind r.sourceId r.sourceName) r.targetKind r.targetId
      r.targetName := rfl
  obtain ⟨hgrown, hpresent, hkeyed⟩ := ensureNamed_twice clock hentities
  exact h.write hgrown (hkeyed h.entities) .refl .refl .refl (.insert .refl rfl ⟨htrimmed, hpresent⟩)

theorem ensureObject_spec (e : Table String MemoryEntity) (kind : Option RelationshipEndpointKind) (id name : Option String) :
    Grown e (MemoryManager.ensureObject clock e kind id name) ∧
    Present (MemoryManager.ensureObject clock e kind id name) (objectMention kind id name) ∧
    (Keyed e → Keyed (MemoryManager.ensureObject clock e kind id name)) := by
  have hnone : Present e [] := by simp [Present]
  rcases kind with _ | kind
  · exact ⟨.rfl, hnone, fun h => h⟩
  · rcases id with _ | id
    · exact ⟨.rfl, hnone, fun h => h⟩
    · rcases name with _ | name
      · exact ⟨.rfl, hnone, fun h => h⟩
      · exact MemoryManager.ensureEntity_spec e _ kind id name

theorem loadTemporalFact (h : Closed m) {f : TemporalFact F} (htrimmed : Trimmed f.mentions) :
    Closed (m.loadTemporalFact clock f) := by
  obtain ⟨hgrown, hpresent, hkeyed⟩ := MemoryManager.ensureEntity_spec m.memoryEntities
    (clock (entityKey f.subjectKind (trim f.subjectId))) f.subjectKind f.subjectId f.subjectName
  obtain ⟨hgrown', hpresent', hkeyed'⟩ := ensureObject_spec clock
    (MemoryManager.ensureNamed clock m.memoryEntities f.subjectKind f.subjectId f.subjectName) f.objectKind f.objectId f.objectName
  exact h.write (hgrown.trans hgrown') (hkeyed' (hkeyed h.entities)) .refl .refl
    (.insert .refl rfl ⟨htrimmed, (hpresent.mono hgrown').append hpresent'⟩) .refl

end

end Closed

/-- What the relationships and the temporal records of a snapshot name has no white space around it. -/
structure MemoryManagerSnapshot.Trim (s : MemoryManagerSnapshot F) : Prop where
  relationships : ∀ r ∈ s.agentRelationships, Trimmed r.mentions
  facts : ∀ f ∈ s.temporalFacts, Trimmed f.mentions
  temporalRelationships : ∀ r ∈ s.temporalRelationships, Trimmed r.mentions

theorem Closed.replaceSnapshot (m : MemoryManager F) (clock : String → ℕ) {s : MemoryManagerSnapshot F} (hs : s.Trim) :
    Closed (m.replaceSnapshot S clock s) := by
  have h1 : Closed (s.memories.foldl (MemoryManager.loadMemory S clock) (m.clear none)) :=
    List.foldlRecOn s.memories _ Closed.new fun _ hm memory _ => hm.loadMemory clock memory
  have h2 := List.foldlRecOn s.memoryEntities MemoryManager.loadEntity h1 fun _ hm entity _ => hm.loadEntity entity
  have h3 := List.foldlRecOn s.agentRelationships (MemoryManager.loadRelationship clock) h2
    fun _ hm r hr => hm.loadRelationship clock (hs.relationships r hr)
  have h4 := List.foldlRecOn s.temporalFacts (MemoryManager.loadTemporalFact clock) h3
    fun _ hm f hf => hm.loadTemporalFact clock (hs.facts f hf)
  exact List.foldlRecOn s.temporalRelationships (MemoryManager.loadTemporalRelationship clock) h4
    fun _ hm r hr => hm.loadTemporalRelationship clock (hs.temporalRelationships r hr)

/-! ## Loading a snapshot of a closed store -/

namespace Closed

variable {m : MemoryManager F}

theorem loadMemory_grown {m' : MemoryManager F} (hm' : Grown m'.memoryEntities m.memoryEntities) (clock : String → ℕ)
    {memory : Memory F} (hpresent : Present m.memoryEntities memory.mentions) :
    Grown (m'.loadMemory S clock memory).memoryEntities m.memoryEntities := by
  have hentities : (m'.loadMemory S clock memory).memoryEntities = MemoryManager.ensureEntity m'.memoryEntities
      (clock (entityKey .agent (trim memory.agentId))) .agent memory.agentId memory.agentName := rfl
  rw [hentities]
  unfold MemoryManager.ensureEntity
  by_cases hblank : trim memory.agentId = "" ∨ trim memory.agentName = ""
  · rw [if_pos hblank]
    exact hm'
  · rw [if_neg hblank]
    split_ifs
    · exact hm'
    · intro key hkey
      rcases Std.ExtTreeMap.mem_insert.mp hkey with heq | hold
      · have hin : entityKey .agent (trim memory.agentId) ∈ m.memoryEntities :=
          hpresent _ (List.mem_singleton_self _) hblank
        rwa [← Std.LawfulEqCmp.eq_of_compare heq]
      · exact hm' key hold

theorem foldl_loadMemory_grown (clock : String → ℕ) {m' : MemoryManager F} (hm' : Grown m'.memoryEntities m.memoryEntities)
    {memories : List (Memory F)} (hpresent : ∀ memory ∈ memories, Present m.memoryEntities memory.mentions) :
    Grown (memories.foldl (MemoryManager.loadMemory S clock) m').memoryEntities m.memoryEntities :=
  List.foldlRecOn memories (motive := fun m' : MemoryManager F => Grown m'.memoryEntities m.memoryEntities) _ hm'
    fun _ hgrown memory hmemory => loadMemory_grown hgrown clock (hpresent memory hmemory)

theorem loaded_entities (h : Closed m) (clock : String → ℕ) (other : MemoryManager F) :
    (m.snapshot.memoryEntities.foldl MemoryManager.loadEntity
      (m.snapshot.memories.foldl (MemoryManager.loadMemory S clock) (other.clear none))).memoryEntities = m.memoryEntities := by
  have hpresent : ∀ memory ∈ m.snapshot.memories, Present m.memoryEntities memory.mentions := by
    intro memory hmemory
    obtain ⟨k, hk⟩ := Table.mem_vals.mp ((List.mergeSort_perm _ _).mem_iff.mp hmemory)
    exact (h.memories k memory hk).2
  have hnone : Grown (other.clear none).memoryEntities m.memoryEntities := by
    intro key hkey
    simp [MemoryManager.clear] at hkey
  have hgrown := foldl_loadMemory_grown (S := S) clock hnone hpresent
  generalize m.snapshot.memories.foldl (MemoryManager.loadMemory S clock) (other.clear none) = base at hgrown
  have hstep : ∀ (m' : MemoryManager F) (e : MemoryEntity),
      (m'.loadEntity e).memoryEntities = m'.memoryEntities.insert (entityKey e.kind e.id) e := fun _ _ => rfl
  have hload : (m.snapshot.memoryEntities.foldl MemoryManager.loadEntity base).memoryEntities =
      Table.load (fun e => entityKey e.kind e.id) base.memoryEntities m.snapshot.memoryEntities :=
    Table.foldl_load (g := MemoryManager.memoryEntities) hstep _ _
  rw [hload]
  exact Table.load_vals h.entities hgrown (List.mergeSort_perm _ _)

theorem foldl_present {α : Type} {f : MemoryManager F → α → MemoryManager F} {e : Table String MemoryEntity} {l : List α}
    (hf : ∀ a ∈ l, ∀ m' : MemoryManager F, m'.memoryEntities = e → (f m' a).memoryEntities = e) {m' : MemoryManager F}
    (h : m'.memoryEntities = e) : (l.foldl f m').memoryEntities = e :=
  List.foldlRecOn l (motive := fun m' => m'.memoryEntities = e) _ h fun m' hm' a ha => hf a ha m' hm'

theorem ensureObject_of_present {e : Table String MemoryEntity} {mentions : List Mention} (h : Present e mentions)
    (clock : String → ℕ) {kind : Option RelationshipEndpointKind} {id name : Option String}
    (hμ : objectMention kind id name ⊆ mentions) : MemoryManager.ensureObject clock e kind id name = e := by
  rcases kind with _ | kind
  · rfl
  · rcases id with _ | id
    · rfl
    · rcases name with _ | name
      · rfl
      · exact MemoryManager.ensureEntity_of_present h _ (hμ (List.mem_singleton_self _))

theorem restored_entities (h : Closed m) (clock : String → ℕ) (other : MemoryManager F) :
    (other.replaceSnapshot S clock m.snapshot).memoryEntities = m.memoryEntities := by
  refine foldl_present (fun r hr m' hm' => ?_) (foldl_present (fun f hf m' hm' => ?_)
    (foldl_present (fun r hr m' hm' => ?_) (h.loaded_entities clock other)))
  · obtain ⟨k, hk⟩ := Table.mem_vals.mp ((List.mergeSort_perm _ _).mem_iff.mp hr)
    have hpresent := (h.temporalRelationships k r hk).2.2
    simp only [MemoryManager.loadTemporalRelationship, MemoryManager.ensureNamed]
    rw [hm', MemoryManager.ensureEntity_of_present hpresent _ (List.mem_cons_self ..),
      MemoryManager.ensureEntity_of_present hpresent _ (List.mem_cons_of_mem _ (List.mem_singleton_self _))]
  · obtain ⟨k, hk⟩ := Table.mem_vals.mp ((List.mergeSort_perm _ _).mem_iff.mp hf)
    have hpresent := (h.facts k f hk).2.2
    simp only [MemoryManager.loadTemporalFact, MemoryManager.ensureNamed]
    rw [hm', MemoryManager.ensureEntity_of_present hpresent _ (List.mem_cons_self ..),
      ensureObject_of_present hpresent clock (List.subset_cons_self _ _)]
  · obtain ⟨k, hk⟩ := Table.mem_vals.mp ((List.mergeSort_perm _ _).mem_iff.mp hr)
    have hpresent := (h.relationships k r hk).2.2
    simp only [MemoryManager.loadRelationship, MemoryManager.ensureNamed]
    rw [hm', MemoryManager.ensureEntity_of_present hpresent _ (List.mem_cons_self ..),
      MemoryManager.ensureEntity_of_present hpresent _ (List.mem_cons_of_mem _ (List.mem_singleton_self _))]

theorem restored (h : Closed m) (clock : String → ℕ) (other : MemoryManager F) :
    (other.replaceSnapshot S clock m.snapshot).memories = m.memories ∧
    (other.replaceSnapshot S clock m.snapshot).memoryEntities = m.memoryEntities ∧
    (other.replaceSnapshot S clock m.snapshot).agentRelationships = m.agentRelationships ∧
    (other.replaceSnapshot S clock m.snapshot).temporalFacts = m.temporalFacts ∧
    (other.replaceSnapshot S clock m.snapshot).temporalRelationships = m.temporalRelationships := by
  have hempty : ∀ {ν : Type} {t : Table String ν} (k : String), k ∈ (∅ : Table String ν) → k ∈ t := by simp
  refine ⟨?_, ?_, ?_, ?_, ?_⟩
  · rw [replaceSnapshot_memories]
    exact Table.load_vals (fun k v hv => (h.memories k v hv).1) hempty (List.mergeSort_perm _ _)
  · exact h.restored_entities clock other
  · rw [replaceSnapshot_agentRelationships]
    exact Table.load_vals (fun k v hv => (h.relationships k v hv).1) hempty (List.mergeSort_perm _ _)
  · rw [replaceSnapshot_temporalFacts]
    exact Table.load_vals (fun k v hv => (h.facts k v hv).1) hempty (List.mergeSort_perm _ _)
  · rw [replaceSnapshot_temporalRelationships]
    exact Table.load_vals (fun k v hv => (h.temporalRelationships k v hv).1) hempty (List.mergeSort_perm _ _)

end Closed

/-! ## Calls -/

/-- Memories of an agent whose identifier has white space around it in the memory: they name the agent, but are not among
the memories of `agentId`. -/
def Strays (m : MemoryManager F) (agentId : String) : Prop :=
  ∃ (k : String) (memory : Memory F), m.memories[k]? = some memory ∧ memory.agentId ≠ agentId ∧ trim memory.agentId = agentId ∧
    trim memory.agentName ≠ ""

/-- The call removes no entity that something still names.  A snapshot has been trimmed as the store trims. -/
def Tidy (p : Process F) : Op S → Prop
  | .clear (some agentId) =>
    ¬ Strays p.manager agentId ∧
    ∀ (k : String) f, p.manager.temporalFacts[k]? = some f → ¬ (f.subjectKind = .agent ∧ f.subjectId = agentId) →
      ∀ μ ∈ objectMention f.objectKind f.objectId f.objectName, ¬ μ.Blank → ¬ (μ.kind = .agent ∧ μ.id = agentId)
  | .deleteEntity .agent id =>
    (∃ (k : String) (memory : Memory F), p.manager.memories[k]? = some memory ∧ memory.agentId = id) ∨ ¬ Strays p.manager id
  | .replaceSnapshot _ snapshot => snapshot.Trim
  | _ => True

theorem Mention.key_ne {μ : Mention} (htrim : trim μ.id = μ.id) {kind : RelationshipEndpointKind} {id : String}
    (hne : ¬ (μ.kind = kind ∧ μ.id = id)) : μ.key ≠ entityKey kind id := by
  intro hkey
  unfold Mention.key at hkey
  rw [htrim] at hkey
  exact hne (entityKey_inj hkey)

namespace MemoryManager

theorem foldl_forget_memories (ids : List String) (m : MemoryManager F) :
    (ids.foldl forget m).memories = m.memories.eraseAll ids := by
  induction ids generalizing m with
  | nil => rfl
  | cons id ids ih => exact ih (m.forget id)

theorem clear_memories {m : MemoryManager F} {agentId : String} {k : String} {memory : Memory F}
    (h : (m.clear (some agentId)).memories[k]? = some memory) : m.memories[k]? = some memory ∧ memory.agentId ≠ agentId := by
  simp only [clear] at h
  rw [foldl_forget_memories, Table.getElem?_eraseAll] at h
  split_ifs at h with hmem
  refine ⟨h, fun hagent => hmem ?_⟩
  refine List.mem_map.mpr ⟨(k, memory), List.mem_filter.mpr ⟨Table.mem_toList.mpr h, ?_⟩, rfl⟩
  simpa using hagent

end MemoryManager

theorem not_strays {m : MemoryManager F} {agentId k : String} {memory : Memory F} (hstrays : ¬ Strays m agentId)
    (hmemory : m.memories[k]? = some memory) (hne : memory.agentId ≠ agentId) :
    ∀ μ ∈ memory.mentions, ¬ μ.Blank → μ.key ≠ entityKey .agent agentId := by
  intro μ hμ hblank hkey
  obtain rfl := List.mem_singleton.mp hμ
  have htrim : trim memory.agentId = agentId := (entityKey_inj hkey).2
  exact hstrays ⟨k, memory, hmemory, hne, htrim, fun hname => hblank (.inr hname)⟩

namespace Closed

variable {m : MemoryManager F}

theorem filter_entities (h : Closed m) (kind : RelationshipEndpointKind) (id key : String) :
    (m.memoryEntities.filter fun _ e => decide (e.kind ≠ kind ∨ e.id ≠ id))[key]? =
      if entityKey kind id = key then none else m.memoryEntities[key]? := by
  rw [Std.ExtTreeMap.getElem?_filter']
  rcases he : m.memoryEntities[key]? with _ | e
  · simp
  · have hkey := h.entities key e he
    by_cases hgone : entityKey kind id = key
    · have hsame := entityKey_inj (hkey.trans hgone.symm)
      simp [hgone, hsame.1, hsame.2]
    · have hother : e.kind ≠ kind ∨ e.id ≠ id := by
        by_contra hsame
        rw [not_or, not_not, not_not] at hsame
        rw [hsame.1, hsame.2] at hkey
        exact hgone hkey
      simp [hgone, hother]

theorem shed_filter {ν : Type} {ident : ν → String} {mentions : ν → List Mention} {e : Table String MemoryEntity}
    {t t' : Table String ν} {kind : RelationshipEndpointKind} {id : String}
    (hfits : Fits ident (fun v => Neat e (mentions v)) t)
    (hkept : ∀ (k : String) v, t'[k]? = some v → t[k]? = some v ∧
      ∀ μ ∈ mentions v, ¬ μ.Blank → ¬ (μ.kind = kind ∧ μ.id = id)) :
    Shed ident mentions (entityKey kind id) t t' := by
  intro k v hv
  obtain ⟨hold, hnot⟩ := hkept k v hv
  refine ⟨v, hold, rfl, rfl, fun μ hμ hblank => Mention.key_ne ?_ (hnot μ hμ hblank)⟩
  exact (hfits k v hold).2.1 μ hμ

theorem clear (h : Closed m) {agentId : String} (hstrays : ¬ Strays m agentId)
    (hobjects : ∀ (k : String) f, m.temporalFacts[k]? = some f → ¬ (f.subjectKind = .agent ∧ f.subjectId = agentId) →
      ∀ μ ∈ objectMention f.objectKind f.objectId f.objectName, ¬ μ.Blank → ¬ (μ.kind = .agent ∧ μ.id = agentId)) :
    Closed (m.clear (some agentId)) := by
  refine h.shed (entityKey .agent agentId) (h.filter_entities .agent agentId) (fun k memory hmemory => ?_)
    (shed_filter h.relationships fun k r hr => ?_) (shed_filter h.facts fun k f hf => ?_)
    (shed_filter h.temporalRelationships fun k r hr => ?_)
  · obtain ⟨hold, hne⟩ := MemoryManager.clear_memories hmemory
    exact ⟨memory, hold, rfl, rfl, not_strays hstrays hold hne⟩
  · simp only [MemoryManager.clear, Std.ExtTreeMap.getElem?_filter', Option.filter_eq_some_iff, decide_eq_true_eq] at hr
    refine ⟨hr.1, fun μ hμ _ hsame => ?_⟩
    rcases List.mem_pair.mp hμ with rfl | rfl
    · exact hr.2.1.elim (fun hne => hne hsame.1) (fun hne => hne hsame.2)
    · exact hr.2.2.elim (fun hne => hne hsame.1) (fun hne => hne hsame.2)
  · simp only [MemoryManager.clear, Std.ExtTreeMap.getElem?_filter', Option.filter_eq_some_iff, decide_eq_true_eq] at hf
    have hsubject : ¬ (f.subjectKind = .agent ∧ f.subjectId = agentId) :=
      fun hsame => hf.2.elim (fun hne => hne hsame.1) (fun hne => hne hsame.2)
    refine ⟨hf.1, fun μ hμ hblank => ?_⟩
    rcases List.mem_cons.mp hμ with rfl | hobject
    · exact hsubject
    · exact hobjects k f hf.1 hsubject μ hobject hblank
  · simp only [MemoryManager.clear, Std.ExtTreeMap.getElem?_filter', Option.filter_eq_some_iff, decide_eq_true_eq] at hr
    refine ⟨hr.1, fun μ hμ _ hsame => ?_⟩
    rcases List.mem_pair.mp hμ with rfl | rfl
    · exact hr.2.1.elim (fun hne => hne hsame.1) (fun hne => hne hsame.2)
    · exact hr.2.2.elim (fun hne => hne hsame.1) (fun hne => hne hsame.2)

theorem shed_eraseAll {ν : Type} {ident : ν → String} {mentions : ν → List Mention} {e : Table String MemoryEntity}
    {t : Table String ν} {kind : RelationshipEndpointKind} {id : String} {naming : List String}
    (hfits : Fits ident (fun v => Neat e (mentions v)) t)
    (hnaming : ∀ (k : String) v, t[k]? = some v → (∃ μ ∈ mentions v, μ.kind = kind ∧ μ.id = id) → ident v ∈ naming) :
    Shed ident mentions (entityKey kind id) t (t.eraseAll naming) := by
  refine shed_filter hfits fun k v hv => ?_
  rw [Table.getElem?_eraseAll] at hv
  split_ifs at hv with hk
  refine ⟨hv, fun μ hμ _ hsame => hk ?_⟩
  rw [← (hfits k v hv).1]
  exact hnaming k v hv ⟨μ, hμ, hsame⟩

theorem withoutEntity (h : Closed m) {kind : RelationshipEndpointKind} {id : String}
    (hmemories : kind = .agent → ∀ (k : String) memory, m.memories[k]? = some memory → memory.agentId ≠ id)
    (hstrays : kind = .agent → ¬ Strays m id) : Closed (m.withoutEntity kind id) := by
  have hnames : ∀ {ν : Type} {ident : ν → String} {t : Table String ν} {p : ν → Bool} (k : String) v, t[k]? = some v →
      p v = true → ident v ∈ ((t.vals.filter p).map ident) := by
    intro ν ident t p k v hv hp
    exact List.mem_map.mpr ⟨v, List.mem_filter.mpr ⟨Table.mem_vals.mpr ⟨k, hv⟩, hp⟩, rfl⟩
  refine h.shed (entityKey kind id) (fun key => Table.getElem?_erase_eq ..) (fun k memory hmemory => ?_)
    (shed_eraseAll h.relationships fun k r hr hμ => ?_)
    (.map (fun _ => rfl) (fun _ => rfl) (shed_eraseAll h.facts fun k f hf hμ => ?_))
    (.map (fun _ => rfl) (fun _ => rfl) (shed_eraseAll h.temporalRelationships fun k r hr hμ => ?_))
  · refine ⟨memory, hmemory, rfl, rfl, ?_⟩
    by_cases hkind : kind = .agent
    · subst hkind
      exact not_strays (hstrays rfl) hmemory (hmemories rfl k memory hmemory)
    · intro μ hμ _ hkey
      obtain rfl := List.mem_singleton.mp hμ
      exact hkind (entityKey_inj hkey).1.symm
  · obtain ⟨μ, hμ, hsame⟩ := hμ
    refine hnames k r hr ?_
    rcases List.mem_pair.mp hμ with rfl | rfl
    · exact decide_eq_true (.inl hsame)
    · exact decide_eq_true (.inr hsame)
  · obtain ⟨μ, hμ, hkind, hid⟩ := hμ
    refine hnames k f hf ?_
    rcases List.mem_cons.mp hμ with rfl | hobject
    · exact decide_eq_true (.inl ⟨hkind, hid⟩)
    · obtain ⟨hk, hi, -⟩ := mem_objectMention hobject
      rw [hkind] at hk
      rw [hid] at hi
      exact decide_eq_true (.inr ⟨hk, hi⟩)
  · obtain ⟨μ, hμ, hsame⟩ := hμ
    refine hnames k r hr ?_
    rcases List.mem_pair.mp hμ with rfl | rfl
    · exact decide_eq_true (.inl hsame)
    · exact decide_eq_true (.inr hsame)

theorem upsert_twice {e e' : Table String MemoryEntity} {now now' : ℕ} {kind kind' : RelationshipEndpointKind}
    {id name id' name' : String} (hid : Clean id) (hid' : Clean id')
    (he' : e' = MemoryManager.upsertEntityParts (MemoryManager.upsertEntityParts e now kind id name [] none) now' kind' id' name'
      [] none) :
    Grown e e' ∧ Neat e' [⟨kind, id, name⟩, ⟨kind', id', name'⟩] ∧ (Keyed e → Keyed e') := by
  obtain ⟨hgrown, hpresent, hkeyed⟩ := MemoryManager.upsertEntityParts_spec e now kind name [] none hid.1
  obtain ⟨hgrown', hpresent', hkeyed'⟩ := MemoryManager.upsertEntityParts_spec
    (MemoryManager.upsertEntityParts e now kind id name [] none) now' kind' name' [] none hid'.1
  have htrimmed : Trimmed [⟨kind, id, name⟩, ⟨kind', id', name'⟩] := by
    intro μ hμ
    rcases List.mem_pair.mp hμ with rfl | rfl
    · exact hid.1
    · exact hid'.1
  rw [he']
  exact ⟨hgrown.trans hgrown', ⟨htrimmed, (hpresent.mono hgrown').append hpresent'⟩, fun h => hkeyed' (hkeyed h)⟩

theorem upsertObject_spec (e : Table String MemoryEntity) (now : ℕ) {kind : Option RelationshipEndpointKind}
    {id name : Option String} (hobject : CleanObject kind id name) :
    Grown e (MemoryManager.upsertObject e now kind id name) ∧
    Neat (MemoryManager.upsertObject e now kind id name) (objectMention kind id name) ∧
    (Keyed e → Keyed (MemoryManager.upsertObject e now kind id name)) := by
  rcases hobject with ⟨rfl, rfl, rfl⟩ | ⟨kind, id, name, rfl, rfl, rfl, hid, -⟩
  · exact ⟨.rfl, ⟨by simp [Trimmed, objectMention], by simp [Present, objectMention]⟩, fun h => h⟩
  · obtain ⟨hgrown, hpresent, hkeyed⟩ := MemoryManager.upsertEntityParts_spec e now kind name [] none hid.1
    refine ⟨hgrown, ⟨fun μ hμ => ?_, hpresent⟩, hkeyed⟩
    obtain rfl := List.mem_singleton.mp hμ
    exact hid.1

theorem retain (h : Closed m) (policy : MemoryRetentionPolicy F) (now : ℕ) (isProtected : Memory F → Bool) :
    Closed (m.retain S policy now isProtected) := by
  have hdecay : Closed { m with memories := m.decayedMemories S policy now isProtected } := by
    refine h.write .rfl h.entities ?_ .refl .refl .refl
    show Carried _ _ _ m.memories (m.decayedMemories S policy now isProtected)
    unfold MemoryManager.decayedMemories
    rcases policy.decayHalfLifeMillis with _ | halfLife
    · exact .refl
    · by_cases hpos : 0 < halfLife
      · simp only [hpos, if_true]
        refine .map (fun memory => ?_) (fun memory => ?_) fun _ _ h => h
        · unfold MemoryManager.decay
          split_ifs <;> rfl
        · unfold MemoryManager.decay
          split_ifs <;> rfl
      · simp only [hpos, if_false]
        exact .refl
  refine (hdecay.foldl_forget _).write .rfl (hdecay.foldl_forget _).entities .refl ?_ .refl .refl
  rw [foldl_keeps (f := MemoryManager.forget) (g := MemoryManager.agentRelationships) fun _ _ => rfl]
  show Carried _ _ _ m.agentRelationships (MemoryManager.pruneRelationshipEvidence m.agentRelationships _).1
  unfold MemoryManager.pruneRelationshipEvidence
  split_ifs
  · exact .refl
  · refine .eraseAll (.map ?_ ?_ fun _ _ h => h) _
    · exact fun _ => rfl
    · exact fun _ => rfl

end Closed

/-! ### Consolidations -/

theorem prepareImages_mentions {sources : List (Memory F)} {content groupTag summaryId : String} {createdAt : ℕ}
    {images : ConsolidationImages F} (h : prepareImages S sources content groupTag summaryId createdAt = .ok images) :
    images.sourcesBefore.map Memory.mentions = images.sourcesAfter.map Memory.mentions ∧
    ∃ first ∈ images.sourcesBefore, images.summary.mentions = first.mentions := by
  unfold prepareImages at h
  simp only [bind_eq_ok] at h
  obtain ⟨⟨⟩, -, h⟩ := h
  rcases sources with _ | ⟨first, rest⟩
  · exact absurd h (by simp)
  · simp only [bind_eq_ok] at h
    obtain ⟨⟨⟩, -, h⟩ := h
    obtain rfl := Except.ok.inj h
    refine ⟨?_, first, List.mem_cons_self .., rfl⟩
    rw [List.map_map]
    rfl

theorem sameMemory_mentions {left right : Memory F} (h : sameMemory S left right = true) : left.mentions = right.mentions := by
  simp only [sameMemory, Bool.and_eq_true, decide_eq_true_eq] at h
  obtain ⟨⟨⟨-, hagent, hname, -⟩, -⟩, -⟩ := h
  unfold Memory.mentions
  rw [hagent, hname]

theorem Closed.present_of_hasExactly {m : MemoryManager F} (h : Closed m) {l : List (Memory F)}
    (hl : m.hasExactly S l = true) : ∀ memory ∈ l, Present m.memoryEntities memory.mentions := by
  intro memory hmemory
  have hat := List.all_eq_true.mp hl memory hmemory
  obtain ⟨stored, hstored, hsame⟩ := (Option.any_eq_true _ _).mp hat
  rw [← sameMemory_mentions hsame]
  exact (h.memories memory.id stored hstored).2

theorem Closed.images_present {m : MemoryManager F} (h : Closed m) (prepared : PreparedMemoryConsolidation S)
    (hstate : m.hasExactly S prepared.1.sourcesBefore = true ∨ m.hasExactly S prepared.1.sourcesAfter = true) :
    (∀ memory ∈ prepared.1.sourcesBefore, Present m.memoryEntities memory.mentions) ∧
    ∀ memory ∈ prepared.1.sourcesAfter ++ [prepared.1.summary], Present m.memoryEntities memory.mentions := by
  obtain ⟨images, sources, content, groupTag, summaryId, createdAt, himages⟩ := prepared
  obtain ⟨hmentions, first, hfirst, hsummary⟩ := prepareImages_mentions himages
  have hiff : ∀ {l l' : List (Memory F)}, l.map Memory.mentions = l'.map Memory.mentions →
      (∀ memory ∈ l, Present m.memoryEntities memory.mentions) → ∀ memory ∈ l', Present m.memoryEntities memory.mentions := by
    intro l l' hsame hl memory hmemory
    have hmem : memory.mentions ∈ l.map Memory.mentions := hsame ▸ List.mem_map_of_mem hmemory
    obtain ⟨other, hother, heq⟩ := List.mem_map.mp hmem
    rw [← heq]
    exact hl other hother
  have hbefore : ∀ memory ∈ images.sourcesBefore, Present m.memoryEntities memory.mentions := by
    rcases hstate with hbefore | hafter
    · exact h.present_of_hasExactly hbefore
    · exact hiff hmentions.symm (h.present_of_hasExactly hafter)
  refine ⟨hbefore, fun memory hmemory => ?_⟩
  rcases List.mem_append.mp hmemory with hsource | hsum
  · exact hiff hmentions hbefore memory hsource
  · rw [List.mem_singleton.mp hsum, hsummary]
    exact hbefore first hfirst

theorem factConsolidationState_before {m : MemoryManager F} {prepared : PreparedMemoryConsolidation S}
    (h : m.factConsolidationState S prepared = .before) : m.hasExactly S prepared.1.sourcesBefore = true := by
  unfold MemoryManager.factConsolidationState at h
  split_ifs at h with hbefore
  exact (Bool.and_eq_true_iff.mp hbefore).2

theorem factConsolidationState_after {m : MemoryManager F} {prepared : PreparedMemoryConsolidation S}
    (h : m.factConsolidationState S prepared = .after) : m.hasExactly S prepared.1.sourcesAfter = true := by
  unfold MemoryManager.factConsolidationState at h
  split_ifs at h with hbefore hafter
  exact (Bool.and_eq_true_iff.mp hafter).2

/-! ### One call -/

theorem Closed.step {p : Process F} (h : Closed p.manager) {op : Op S} (htidy : Tidy p op) :
    Closed (step S p op).manager := by
  have heffect := step_effect p op
  generalize (AnimaMemory.step S p op).manager = m' at heffect
  cases heffect with
  | same => exact h
  | added now memory =>
    obtain ⟨hgrown, hpresent, hkeyed⟩ := MemoryManager.ensureEntity_spec p.manager.memoryEntities now .agent memory.agentId
      memory.agentName
    exact h.write hgrown (hkeyed h.entities) (.insert .refl rfl hpresent) .refl .refl .refl
  | @rewritten _ id old updated hold hid hagent hname =>
    obtain ⟨hkey, hpresent⟩ := h.memories id old hold
    have hmentions : updated.mentions = old.mentions := by
      unfold Memory.mentions
      rw [hagent, hname]
    refine h.write .rfl h.entities (.insert .refl (hid.trans hkey) ?_) .refl .refl .refl
    show Present p.manager.memoryEntities updated.mentions
    rw [hmentions]
    exact hpresent
  | entity now kind aliases summary hid hname =>
    obtain ⟨hgrown, -, hkeyed⟩ := MemoryManager.upsertEntityParts_spec p.manager.memoryEntities now kind _ aliases summary hid.1
    exact h.write hgrown (hkeyed h.entities) .refl .refl .refl .refl
  | related key hcall hsource htarget hkey =>
    obtain ⟨hgrown, hneat, hkeyed⟩ := upsert_twice hsource.1 htarget.1 rfl
    refine h.write hgrown (hkeyed h.entities) .refl (.insert .refl ?_ hneat) .refl .refl
    rcases hkey with ⟨old, hold, hid, -⟩ | ⟨rfl, -⟩
    · exact hid.trans (h.relationships key old hold).1
    · rfl
  | @fact clock fact f hid hrange hsubject hobject hfrom =>
    obtain ⟨hgrown, hpresent, hkeyed⟩ := MemoryManager.upsertEntityParts_spec p.manager.memoryEntities (clock 1) f.subjectKind
      f.subjectName [] none hsubject.1.1
    obtain ⟨hgrown', hneat, hkeyed'⟩ := upsertObject_spec
      (MemoryManager.upsertEntityParts p.manager.memoryEntities (clock 1) f.subjectKind f.subjectId f.subjectName [] none)
      (clock 2) hobject
    have htrimmed : Trimmed f.mentions := by
      intro μ hμ
      rcases List.mem_cons.mp hμ with rfl | hμ
      · exact hsubject.1.1
      · exact hneat.1 μ hμ
    refine h.write (hgrown.trans hgrown') (hkeyed' (hkeyed h.entities)) .refl .refl
      (.insert (.modifyAll ?_ ?_ (MemoryManager.supersedeFact_idem _ _) _) rfl ?_) .refl
    · exact fun _ => rfl
    · exact fun _ => rfl
    · exact ⟨htrimmed, (hpresent.mono hgrown').append hneat.2⟩
  | temporalRelationship hid hrange hsource htarget hfrom =>
    obtain ⟨hgrown, hneat, hkeyed⟩ := upsert_twice hsource.1 htarget.1 rfl
    refine h.write hgrown (hkeyed h.entities) .refl .refl .refl
      (.insert (.modifyAll ?_ ?_ (MemoryManager.supersedeRelationship_idem _ _) _) rfl ?_)
    · exact fun _ => rfl
    · exact fun _ => rfl
    · exact hneat
  | forgotTemporalFact id =>
    exact h.write .rfl h.entities .refl .refl (.map (fun _ => rfl) (fun _ => rfl) fun _ _ => Table.getElem?_of_erase) .refl
  | forgotTemporalRelationship id =>
    exact h.write .rfl h.entities .refl .refl .refl (.map (fun _ => rfl) (fun _ => rfl) fun _ _ => Table.getElem?_of_erase)
  | forgotAgentRelationship id => exact h.write .rfl h.entities .refl (.sub fun _ _ => Table.getElem?_of_erase) .refl .refl
  | forgot id => exact h.forget id
  | retained policy now isProtected => exact h.retain policy now isProtected
  | cleared agentId =>
    rcases agentId with _ | agentId
    · exact Closed.new
    · exact h.clear htidy.1 htidy.2
  | replaced clock snapshot => exact Closed.replaceSnapshot p.manager clock htidy
  | deleted id =>
    unfold MemoryManager.deleteMemory
    by_cases hid : id ∉ p.manager.memories
    · rw [if_pos hid]
      exact h
    · rw [if_neg hid]
      refine h.write .rfl h.entities (.sub fun _ _ => Table.getElem?_of_erase)
        (.eraseAll (.map (fun r => ?_) (fun r => ?_) fun _ _ h => h) _)
        (.map (fun _ => rfl) (fun _ => rfl) fun _ _ h => h) (.map (fun _ => rfl) (fun _ => rfl) fun _ _ h => h)
      · split_ifs <;> rfl
      · split_ifs <;> rfl
  | @withoutEntity kind id hin howner =>
    refine h.withoutEntity howner fun hkind => ?_
    subst hkind
    rcases htidy with ⟨k, memory, hmemory, howned⟩ | hstrays
    · exact absurd howned (howner rfl k memory hmemory)
    · exact hstrays
  | consolidated prepared hbefore =>
    exact h.foldl_putMemory (h.images_present prepared (.inl (factConsolidationState_before hbefore))).2
  | undone prepared hafter =>
    refine (h.foldl_putMemory ?_).forget _
    exact (h.images_present prepared (.inr (factConsolidationState_after hafter))).1

/-- **A snapshot restores what was saved** after tidy calls: whatever another store held, it has the memories, the entities and
the records of the one that was saved, and nothing else. -/
theorem snapshot_restores (counters : Counters) {p : Process F} (hreach : Reaches (step S) Tidy (Process.new counters) p)
    (other : MemoryManager F) (clock : String → ℕ) :
    (other.replaceSnapshot S clock p.manager.snapshot).memories = p.manager.memories ∧
    (other.replaceSnapshot S clock p.manager.snapshot).memoryEntities = p.manager.memoryEntities ∧
    (other.replaceSnapshot S clock p.manager.snapshot).agentRelationships = p.manager.agentRelationships ∧
    (other.replaceSnapshot S clock p.manager.snapshot).temporalFacts = p.manager.temporalFacts ∧
    (other.replaceSnapshot S clock p.manager.snapshot).temporalRelationships = p.manager.temporalRelationships := by
  have hclosed : Closed p.manager := by
    refine hreach.invariant (P := fun p : Process F => Closed p.manager) Closed.new ?_
    intro p op _ h htidy
    exact h.step htidy
  exact hclosed.restored clock other

/-! ## An agent that comes back -/

def knows : NewTemporalFact ℕ where
  subjectKind := .user
  subjectId := "u"
  subjectName := "Uma"
  predicate := "knows"
  objectKind := some .agent
  objectId := some "a"
  objectName := some "Ada"
  value := none
  validFrom := none
  validTo := none
  observedAt := none
  confidence := 90
  evidenceMemoryIds := []
  supersedesFactIds := []
  status := none
  tags := none
  roomId := none
  worldId := none
  sessionId := none

def afterKnows (op : Op hundredths) : MemoryManager ℕ :=
  (run (step hundredths) (Process.new ⟨0, 0, 0, 0⟩) [.addTemporalFact (fun _ => 1) knows, op]).manager

/-- The user is deleted with what the store knows of them; the agent stays, here and in what is restored. -/
theorem snapshot_restores_without_user :
    (afterKnows (.deleteEntity .user "u")).memoryEntities.size = 1 ∧
    (afterKnows (.deleteEntity .user "u")).temporalFacts.size = 0 ∧
    (MemoryManager.new.replaceSnapshot hundredths (fun _ => 5) (afterKnows (.deleteEntity .user "u")).snapshot).memoryEntities =
      (afterKnows (.deleteEntity .user "u")).memoryEntities := by
  have hreach : Reaches (step hundredths) Tidy (Process.new ⟨0, 0, 0, 0⟩)
      (run (step hundredths) (Process.new ⟨0, 0, 0, 0⟩)
        [.addTemporalFact (fun _ => 1) knows, .deleteEntity .user "u"]) := by
    refine reaches_inputs _ fun op hop p => ?_
    rcases List.mem_pair.mp hop with rfl | rfl
    · exact trivial
    · exact trivial
  exact ⟨by decide +kernel, by decide +kernel,
    (snapshot_restores ⟨0, 0, 0, 0⟩ hreach MemoryManager.new fun _ => 5).2.1⟩

/-- **An agent that was cleared comes back**: clearing keeps the facts that have the agent as their object, and loading them
makes it again. -/
theorem cleared_agent_comes_back :
    "agent:a" ∉ (afterKnows (.clear (some "a"))).memoryEntities ∧
    "agent:a" ∈ (MemoryManager.new.replaceSnapshot hundredths (fun _ => 5)
      (afterKnows (.clear (some "a"))).snapshot).memoryEntities ∧
    (MemoryManager.new.replaceSnapshot hundredths (fun _ => 5) (afterKnows (.clear (some "a"))).snapshot).memoryEntities ≠
      (afterKnows (.clear (some "a"))).memoryEntities := by
  have hgone : "agent:a" ∉ (afterKnows (.clear (some "a"))).memoryEntities := by decide +kernel
  have hback : "agent:a" ∈ (MemoryManager.new.replaceSnapshot hundredths (fun _ => 5)
      (afterKnows (.clear (some "a"))).snapshot).memoryEntities := by decide +kernel
  refine ⟨hgone, hback, fun heq => hgone ?_⟩
  rw [← heq]
  exact hback

end AnimaCore.AnimaMemory
