import AnimaCore.AnimaMemory.Effects

/-!
# AnimaCore.AnimaMemory.Indexed — the index matches the memories

* `Indexed S m`: the documents of the index are those of the memories, and its counts are those of the documents.
* `Tracked`, `track`: a process with what its relationships go back to: the ones created by calls since the last snapshot
  was loaded, and the ones loaded with it.
* `EdgesApart`: two relationships with one edge were both loaded with that edge.
-/

namespace AnimaCore.AnimaMemory

open Lib

variable {F : Type} {S : Setting F}

/-! ## The index -/

variable (S) in
structure Indexed (m : MemoryManager F) : Prop where
  named : ∀ (id : String) memory, m.memories[id]? = some memory → memory.id = id
  exact : m.index.Exact
  docs : ∀ id : String, m.index.docs[id]?.map (·.terms) =
    m.memories[id]?.map fun memory => S.tokenize (buildIndexText memory)

namespace Indexed

variable {m m' : MemoryManager F}

theorem of_eq (h : Indexed S m) (hmemories : m'.memories = m.memories) (hindex : m'.index = m.index) : Indexed S m' := by
  refine ⟨?_, ?_, ?_⟩
  · rw [hmemories]
    exact h.named
  · rw [hindex]
    exact h.exact
  · rw [hmemories, hindex]
    exact h.docs

theorem new : Indexed S (MemoryManager.new : MemoryManager F) where
  named id memory h := absurd h (by simp [MemoryManager.new])
  exact := Bm25.exact_empty
  docs id := by simp [MemoryManager.new, Bm25.empty]

theorem write (h : Indexed S m) {id : String} {memory : Memory F} (hid : memory.id = id)
    (hmemories : m'.memories = m.memories.insert id memory)
    (hindex : m'.index = m.index.addDocument memory.id (S.tokenize (buildIndexText memory))) : Indexed S m' := by
  refine ⟨fun a found ha => ?_, ?_, fun a => ?_⟩
  · rw [hmemories, Table.getElem?_insert_eq] at ha
    split_ifs at ha with hida
    · obtain rfl := Option.some.inj ha
      exact hid.trans hida
    · exact h.named a found ha
  · rw [hindex]
    exact h.exact.addDocument _ _
  · rw [hmemories, hindex, Bm25.addDocument_docs, hid, Table.getElem?_insert_eq, Table.getElem?_insert_eq]
    split_ifs
    · rfl
    · exact h.docs a

theorem putMemory (h : Indexed S m) (memory : Memory F) : Indexed S (m.putMemory S memory) :=
  h.write rfl rfl rfl

theorem foldl_putMemory (memories : List (Memory F)) : ∀ {m : MemoryManager F}, Indexed S m →
    Indexed S (memories.foldl (MemoryManager.putMemory S) m) := by
  induction memories with
  | nil => intro m h; exact h
  | cons memory memories ih => intro m h; exact ih (h.putMemory memory)

theorem forget (h : Indexed S m) (id : String) : Indexed S (m.forget id) := by
  refine ⟨fun a memory ha => ?_, h.exact.removeDocument id, fun a => ?_⟩
  · simp only [MemoryManager.forget, Table.getElem?_erase_eq] at ha
    split_ifs at ha
    exact h.named a memory ha
  · simp only [MemoryManager.forget, Bm25.removeDocument_docs, Table.getElem?_erase_eq]
    split_ifs
    · rfl
    · exact h.docs a

theorem foldl_forget (ids : List String) : ∀ {m : MemoryManager F}, Indexed S m →
    Indexed S (ids.foldl MemoryManager.forget m) := by
  induction ids with
  | nil => intro m h; exact h
  | cons id ids ih => intro m h; exact ih (h.forget id)

theorem map (h : Indexed S m) {f : Memory F → Memory F} (hid : ∀ memory, (f memory).id = memory.id)
    (htext : ∀ memory, buildIndexText (f memory) = buildIndexText memory) :
    Indexed S { m with memories := m.memories.map fun _ => f } := by
  refine ⟨fun a memory ha => ?_, h.exact, fun a => ?_⟩
  · simp only [Std.ExtTreeMap.getElem?_map] at ha
    obtain ⟨old, hold, rfl⟩ := Option.map_eq_some_iff.mp ha
    rw [hid]
    exact h.named a old hold
  · simp only [Std.ExtTreeMap.getElem?_map, Option.map_map, Function.comp_def, htext]
    exact h.docs a

end Indexed

theorem decay_id (halfLife now : ℕ) (isProtected : Memory F → Bool) (memory : Memory F) :
    (MemoryManager.decay S halfLife now isProtected memory).id = memory.id := by
  unfold MemoryManager.decay
  split_ifs <;> rfl

theorem decay_text (halfLife now : ℕ) (isProtected : Memory F → Bool) (memory : Memory F) :
    buildIndexText (MemoryManager.decay S halfLife now isProtected memory) = buildIndexText memory := by
  unfold MemoryManager.decay
  split_ifs <;> rfl

theorem Indexed.retain {m : MemoryManager F} (h : Indexed S m) (policy : MemoryRetentionPolicy F) (now : ℕ)
    (isProtected : Memory F → Bool) : Indexed S (m.retain S policy now isProtected) := by
  have hdecay : Indexed S { m with memories := m.decayedMemories S policy now isProtected } := by
    unfold MemoryManager.decayedMemories
    rcases policy.decayHalfLifeMillis with _ | halfLife
    · exact h.of_eq rfl rfl
    · by_cases hpos : 0 < halfLife
      · simp only [hpos, if_true]
        exact h.map (decay_id halfLife now isProtected) (decay_text halfLife now isProtected)
      · simp only [hpos, if_false]
        exact h.of_eq rfl rfl
  exact (hdecay.foldl_forget _).of_eq rfl rfl

theorem Indexed.replaceSnapshot (m : MemoryManager F) (clock : String → ℕ) (s : MemoryManagerSnapshot F) :
    Indexed S (m.replaceSnapshot S clock s) := by
  have hmemories : ∀ (l : List (Memory F)) {m : MemoryManager F}, Indexed S m →
      Indexed S (l.foldl (MemoryManager.loadMemory S clock) m) := by
    intro l
    induction l with
    | nil => intro m h; exact h
    | cons memory l ih => intro m h; exact ih (h.write rfl rfl rfl)
  have hrest : ∀ {α : Type} (f : MemoryManager F → α → MemoryManager F),
      (∀ m a, (f m a).memories = m.memories ∧ (f m a).index = m.index) → ∀ (l : List α) {m : MemoryManager F}, Indexed S m →
      Indexed S (l.foldl f m) := by
    intro α f hf l
    induction l with
    | nil => intro m h; exact h
    | cons a l ih => intro m h; exact ih (h.of_eq (hf m a).1 (hf m a).2)
  have h1 := hmemories s.memories (Indexed.new (S := S))
  have h2 := hrest MemoryManager.loadEntity (fun _ _ => ⟨rfl, rfl⟩) s.memoryEntities h1
  have h3 := hrest (MemoryManager.loadRelationship clock) (fun _ _ => ⟨rfl, rfl⟩) s.agentRelationships h2
  have h4 := hrest (MemoryManager.loadTemporalFact clock) (fun _ _ => ⟨rfl, rfl⟩) s.temporalFacts h3
  exact hrest (MemoryManager.loadTemporalRelationship clock) (fun _ _ => ⟨rfl, rfl⟩) s.temporalRelationships h4

theorem Indexed.step {p : Process F} (h : Indexed S p.manager) (op : Op S) : Indexed S (step S p op).manager := by
  have heffect := step_effect p op
  generalize (AnimaMemory.step S p op).manager = m' at heffect
  cases heffect with
  | same => exact h
  | added now memory => exact h.write rfl rfl rfl
  | rewritten hold hid hagent hname => exact h.write (hid.trans (h.named _ _ hold)) rfl rfl
  | entity now kind aliases summary hid hname => exact h.of_eq rfl rfl
  | related key hcall hsource htarget hkey => exact h.of_eq rfl rfl
  | fact hid hrange hsubject hobject hfrom => exact h.of_eq rfl rfl
  | temporalRelationship hid hrange hsource htarget hfrom => exact h.of_eq rfl rfl
  | forgotTemporalFact id => exact h.of_eq rfl rfl
  | forgotTemporalRelationship id => exact h.of_eq rfl rfl
  | forgotAgentRelationship id => exact h.of_eq rfl rfl
  | forgot id => exact h.forget id
  | retained policy now isProtected => exact h.retain policy now isProtected
  | cleared agentId =>
    rcases agentId with _ | agentId
    · exact Indexed.new
    · exact (h.foldl_forget _).of_eq rfl rfl
  | replaced clock snapshot => exact Indexed.replaceSnapshot p.manager clock snapshot
  | deleted id =>
    unfold MemoryManager.deleteMemory
    by_cases hid : id ∉ p.manager.memories
    · rw [if_pos hid]
      exact h
    · rw [if_neg hid]
      exact (h.forget id).of_eq rfl rfl
  | withoutEntity hin howner => exact h.of_eq rfl rfl
  | consolidated prepared hbefore => exact h.foldl_putMemory _
  | undone prepared hafter => exact (h.foldl_putMemory _).forget _

/-! ## Edges of relationships -/

/-- A process, the relationships that calls have created since a snapshot was loaded, and the ones loaded with it. -/
structure Tracked (F : Type) where
  process : Process F
  created : List String
  loaded : List (AgentRelationship F)

def Tracked.new (counters : Counters) : Tracked F := ⟨.new counters, [], []⟩

variable (S) in
def createdBy (t : Tracked F) : Op S → List String
  | .upsertAgentRelationship clock pick relationship =>
    match ((MemoryManager.upsertAgentRelationship S clock t.process.counters.relationship pick relationship).call
        t.process.manager).1 with
    | .ok r => if t.process.manager.edgeTaken r then t.created else r.id :: t.created
    | .error _ => t.created
  | .replaceSnapshot _ _ => []
  | _ => t.created

variable (S) in
def loadedBy (t : Tracked F) : Op S → List (AgentRelationship F)
  | .replaceSnapshot _ snapshot => snapshot.agentRelationships
  | _ => t.loaded

variable (S) in
def track (t : Tracked F) (op : Op S) : Tracked F := ⟨step S t.process op, createdBy S t op, loadedBy S t op⟩

/-- Two relationships with one edge were both loaded with it, and neither was created since. -/
def EdgesApart (relationships : Table String (AgentRelationship F)) (created : List String)
    (loaded : List (AgentRelationship F)) : Prop :=
  ∀ (id id' : String) r r', relationships[id]? = some r → relationships[id']? = some r' → id ≠ id' → r.edge = r'.edge →
    id ∉ created ∧ ∃ s ∈ loaded, s.id = id ∧ s.edge = r.edge

namespace EdgesApart

variable {relationships relationships' : Table String (AgentRelationship F)} {created : List String}
  {loaded : List (AgentRelationship F)}

theorem sub (h : EdgesApart relationships created loaded)
    (hsub : ∀ (id : String) r', relationships'[id]? = some r' → ∃ r, relationships[id]? = some r ∧ r.edge = r'.edge) :
    EdgesApart relationships' created loaded := by
  intro id id' r r' hr hr' hne hedge
  obtain ⟨old, hold, holdedge⟩ := hsub id r hr
  obtain ⟨old', hold', holdedge'⟩ := hsub id' r' hr'
  have := h id id' old old' hold hold' hne (by rw [holdedge, holdedge', hedge])
  rwa [holdedge] at this

theorem filter (h : EdgesApart relationships created loaded) (p : String → AgentRelationship F → Bool) :
    EdgesApart (relationships.filter p) created loaded := by
  exact h.sub fun id r hr => ⟨r, Table.getElem?_of_filter hr, rfl⟩

theorem eraseAll (h : EdgesApart relationships created loaded) (ids : List String) :
    EdgesApart (Table.eraseAll relationships ids) created loaded := by
  exact h.sub fun id r hr => ⟨r, Table.getElem?_of_eraseAll hr, rfl⟩

theorem map (h : EdgesApart relationships created loaded) {f : AgentRelationship F → AgentRelationship F}
    (hf : ∀ r, (f r).edge = r.edge) : EdgesApart (relationships.map fun _ => f) created loaded := by
  refine h.sub fun id r hr => ?_
  rw [Std.ExtTreeMap.getElem?_map] at hr
  obtain ⟨old, hold, rfl⟩ := Option.map_eq_some_iff.mp hr
  exact ⟨old, hold, (hf old).symm⟩

theorem update (h : EdgesApart relationships created loaded) {key : String} {old r : AgentRelationship F}
    (hold : relationships[key]? = some old) (hedge : r.edge = old.edge) :
    EdgesApart (relationships.insert key r) created loaded := by
  refine h.sub fun id found hfound => ?_
  rw [Table.getElem?_insert_eq] at hfound
  split_ifs at hfound with hid
  · obtain rfl := Option.some.inj hfound
    rw [← hid]
    exact ⟨old, hold, hedge.symm⟩
  · exact ⟨found, hfound, rfl⟩

theorem create (h : EdgesApart relationships created loaded) {r : AgentRelationship F}
    (hfree : ∀ (id : String) old, relationships[id]? = some old → old.edge ≠ r.edge) :
    EdgesApart (relationships.insert r.id r) (r.id :: created) loaded := by
  intro id id' found found' hfound hfound' hne hedge
  rw [Table.getElem?_insert_eq] at hfound hfound'
  split_ifs at hfound with hid
  · obtain rfl := Option.some.inj hfound
    rw [if_neg (fun h => hne (hid.symm.trans h))] at hfound'
    exact absurd hedge.symm (hfree id' found' hfound')
  · split_ifs at hfound' with hid'
    · obtain rfl := Option.some.inj hfound'
      exact absurd hedge (hfree id found hfound)
    · obtain ⟨hnew, hloaded⟩ := h id id' found found' hfound hfound' hne hedge
      exact ⟨fun hmem => (List.mem_cons.mp hmem).elim (fun h => hid h.symm) hnew, hloaded⟩

end EdgesApart

theorem pruneRelationshipEvidence_apart {relationships : Table String (AgentRelationship F)} {created : List String}
    {loaded : List (AgentRelationship F)} (h : EdgesApart relationships created loaded) (removed : KeySet String) :
    EdgesApart (MemoryManager.pruneRelationshipEvidence relationships removed).1 created loaded := by
  unfold MemoryManager.pruneRelationshipEvidence
  split_ifs
  · exact h
  · refine EdgesApart.eraseAll ?_ _
    exact h.map fun r => rfl

theorem Effect.apart {p : Process F} {op : Op S} {m' : MemoryManager F} {created : List String}
    {loaded : List (AgentRelationship F)} (heffect : Effect S p op m')
    (hupsert : ∀ clock pick relationship, op ≠ .upsertAgentRelationship clock pick relationship)
    (hreplace : ∀ clock snapshot, op ≠ .replaceSnapshot clock snapshot)
    (h : EdgesApart p.manager.agentRelationships created loaded) : EdgesApart m'.agentRelationships created loaded := by
  have hkept : ∀ memories : List (Memory F),
      (memories.foldl (MemoryManager.putMemory S) p.manager).agentRelationships = p.manager.agentRelationships :=
    fun memories => foldl_keeps (f := MemoryManager.putMemory S) (g := MemoryManager.agentRelationships) (fun _ _ => rfl)
      memories p.manager
  cases heffect with
  | same => exact h
  | added now memory => exact h
  | rewritten hold hid hagent hname => exact h
  | entity now kind aliases summary hid hname => exact h
  | related key hcall hsource htarget hkey => exact absurd rfl (hupsert _ _ _)
  | fact hid hrange hsubject hobject hfrom => exact h
  | temporalRelationship hid hrange hsource htarget hfrom => exact h
  | forgotTemporalFact id => exact h
  | forgotTemporalRelationship id => exact h
  | forgotAgentRelationship id =>
    exact h.sub fun id' r hr => ⟨r, Table.getElem?_of_erase hr, rfl⟩
  | forgot id => exact h
  | retained policy now isProtected => exact pruneRelationshipEvidence_apart h _
  | cleared agentId =>
    rcases agentId with _ | agentId
    · intro id id' r r' hr
      simp [MemoryManager.clear] at hr
    · exact h.filter _
  | replaced clock snapshot => exact absurd rfl (hreplace _ _)
  | deleted id =>
    unfold MemoryManager.deleteMemory
    by_cases hid : id ∉ p.manager.memories
    · rw [if_pos hid]
      exact h
    · rw [if_neg hid]
      refine EdgesApart.eraseAll ?_ _
      refine h.map fun r => ?_
      split_ifs <;> rfl
  | withoutEntity hin howner => exact h.eraseAll _
  | consolidated prepared hbefore => exact h.sub fun id r hr => ⟨r, hkept _ ▸ hr, rfl⟩
  | undone prepared hafter => exact h.sub fun id r hr => ⟨r, hkept _ ▸ hr, rfl⟩

theorem EdgesApart.track {t : Tracked F} (h : EdgesApart t.process.manager.agentRelationships t.created t.loaded)
    (op : Op S) : EdgesApart (track S t op).process.manager.agentRelationships (track S t op).created
      (track S t op).loaded := by
  have hother : (∀ clock pick relationship, op ≠ .upsertAgentRelationship clock pick relationship) →
      (∀ clock snapshot, op ≠ .replaceSnapshot clock snapshot) →
      EdgesApart (step S t.process op).manager.agentRelationships t.created t.loaded :=
    fun hupsert hreplace => (step_effect t.process op).apart hupsert hreplace h
  cases op with
  | upsertAgentRelationship clock pick relationship =>
    have hguarded := MemoryManager.upsertAgentRelationship_guarded S clock t.process.counters.relationship pick relationship
      t.process.manager
    simp only [AnimaMemory.track, createdBy, loadedBy, step, perform, Process.ended]
    rcases hcall : (MemoryManager.upsertAgentRelationship S clock t.process.counters.relationship pick relationship).call
      t.process.manager with ⟨e | r, m'⟩
    · rw [hcall] at hguarded
      obtain rfl : m' = t.process.manager := hguarded.resolve_right (by simp)
      exact h
    · obtain ⟨-, -, key, hkey, rfl⟩ := upsertAgentRelationship_eq_ok hcall
      rcases hkey with ⟨old, hold, -, hedge⟩ | ⟨rfl, hfree⟩
      · have htaken : t.process.manager.edgeTaken r = true := edgeTaken_iff.mpr ⟨key, old, hold, hedge.symm⟩
        simp only [htaken, if_true]
        exact h.update hold hedge
      · simp only [hfree]
        refine h.create fun id old hold hedge => ?_
        have := edgeTaken_iff.mpr ⟨id, old, hold, hedge⟩
        rw [hfree] at this
        exact absurd this (by simp)
  | replaceSnapshot clock snapshot =>
    intro id id' r r' hr hr' hne hedge
    have hload : ∀ (a : String) found, (t.process.manager.replaceSnapshot S clock snapshot).agentRelationships[a]? = some found →
        found.id = a ∧ found ∈ snapshot.agentRelationships := by
      intro a found hfound
      rw [replaceSnapshot_agentRelationships] at hfound
      rcases Table.getElem?_load hfound with hin | hempty
      · exact hin
      · simp at hempty
    exact ⟨List.not_mem_nil, r, (hload id r hr).2, (hload id r hr).1, rfl⟩
  | _ => exact hother (by simp) (by simp)

/-- **The index matches the memories** after any calls: its documents are the memories, the counts of each document are
those of the text of the memory as it is now, and the counts of the terms are those of the documents, without zeros.  Two
relationships with one edge were loaded so, and neither was created by an upsert. -/
theorem index_matches_memories (S : Setting F) (counters : Counters) (calls : List (Op S)) :
    let t := run (track S) (Tracked.new counters) calls
    let m := t.process.manager
    (∀ id : String, id ∈ m.index.docs ↔ id ∈ m.memories) ∧
    (∀ (id : String) doc memory, m.index.docs[id]? = some doc → m.memories[id]? = some memory →
      doc.id = id ∧ doc.terms = S.tokenize (buildIndexText memory) ∧
      doc.termFreqs.Counts fun term => (S.tokenize (buildIndexText memory)).count term) ∧
    m.index.docFreq.Counts (Bm25.documentsWith m.index.docs) ∧
    EdgesApart m.agentRelationships t.created t.loaded := by
  intro t m
  have hinv : Indexed S m ∧ EdgesApart m.agentRelationships t.created t.loaded := by
    refine run_induction (track S) (Tracked.new counters)
      (P := fun _ t => Indexed S t.process.manager ∧
        EdgesApart t.process.manager.agentRelationships t.created t.loaded) calls ?_ ?_
    · refine ⟨Indexed.new, fun id id' r r' hr => ?_⟩
      simp [Tracked.new, Process.new, MemoryManager.new] at hr
    · intro calls op h
      exact ⟨h.1.step op, h.2.track op⟩
  obtain ⟨hindexed, hapart⟩ := hinv
  refine ⟨fun id => ?_, fun id doc memory hdoc hmemory => ?_, hindexed.exact.docFreq, hapart⟩
  · have := congrArg Option.isSome (hindexed.docs id)
    simp only [Option.isSome_map] at this
    rw [Table.mem_iff_getElem?_isSome, Table.mem_iff_getElem?_isSome, this]
  · have hterms : doc.terms = S.tokenize (buildIndexText memory) := by
      have := hindexed.docs id
      rw [hdoc, hmemory] at this
      exact Option.some.inj this
    refine ⟨hindexed.exact.named id doc hdoc, hterms, ?_⟩
    rw [← hterms]
    exact hindexed.exact.terms id doc hdoc

end AnimaCore.AnimaMemory
