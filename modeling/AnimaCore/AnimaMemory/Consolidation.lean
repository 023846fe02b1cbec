import AnimaCore.AnimaMemory.Filed

/-!
# AnimaCore.AnimaMemory.Consolidation — consolidations can be undone, and their journal read back

* `Images`: what the images of a prepared consolidation have in common; `images_spec`.
* `Before`, `After`: the two states of a consolidation, said of the store; they exclude each other.
-/

namespace AnimaCore.AnimaMemory

open Lib

section

variable {F : Type} {S : Setting F}

/-! ## Texts -/

theorem trimmedEmpty_iff {value : String} : trimmedEmpty value = true ↔ trim value = "" := by
  unfold trimmedEmpty
  constructor
  · intro hall
    have hfront : value.toList.dropWhile isWhitespace = [] := List.dropWhile_eq_nil_iff.mpr (List.all_eq_true.mp hall)
    unfold trim
    rw [hfront]
    rfl
  · intro hempty
    have hlist : (value.toList.dropWhile isWhitespace).rdropWhile isWhitespace = [] := by
      rw [← trim_toList, hempty]
      rfl
    rw [List.rdropWhile_eq_nil_iff] at hlist
    rw [List.all_eq_true]
    by_contra hsome
    push Not at hsome
    have hne : value.toList.dropWhile isWhitespace ≠ [] := by
      intro hnil
      obtain ⟨c, hc, hnot⟩ := hsome
      exact hnot (List.dropWhile_eq_nil_iff.mp hnil c hc)
    have hhead := List.head_dropWhile_not isWhitespace hne
    have hspace := hlist _ (List.head_mem hne)
    rw [hspace] at hhead
    cases hhead

theorem trim_sublist (value : String) : (trim value).toList.Sublist value.toList := by
  rw [trim_toList]
  exact (List.rdropWhile_prefix _ _).sublist.trans (List.dropWhile_suffix _).sublist

theorem trimmedEmpty_trim (value : String) : trimmedEmpty (trim value) = trimmedEmpty value := by
  rw [Bool.eq_iff_iff, trimmedEmpty_iff, trimmedEmpty_iff, trim_trim]

theorem validateRequest_trim {sourceCount : ℕ} {content groupTag summaryId : String}
    (h : validateRequest sourceCount content groupTag summaryId = .ok ()) :
    validateRequest sourceCount (trim content) groupTag summaryId = .ok () := by
  unfold validateRequest at h ⊢
  rw [ensure_eq_ok] at h ⊢
  obtain ⟨hlow, hhigh, hbytes, hchars, hblank, hrest⟩ := h
  have hsub := trim_sublist content
  have hsize : (trim content).utf8ByteSize ≤ content.utf8ByteSize := by
    have htrimmed := String.utf8ByteSize_ofList (trim content).toList
    have hcontent := String.utf8ByteSize_ofList content.toList
    rw [String.ofList_toList] at htrimmed hcontent
    rw [htrimmed, hcontent]
    exact String.utf8Len_le_of_sublist hsub
  have hlen := hsub.length_le
  exact ⟨hlow, hhigh, hsize.trans hbytes, hlen.trans hchars, by rw [trimmedEmpty_trim]; exact hblank, hrest⟩

/-! ## The images -/

/-- What consolidations rely on in the arithmetic of `f64`. -/
structure Setting.Comparable (S : Setting F) : Prop where
  same_self : ∀ x, S.inUnit x = true → S.same x x = true
  zero_inUnit : S.inUnit S.zero = true
  larger_inUnit : ∀ x y, S.inUnit x = true → S.inUnit y = true → S.inUnit (S.larger x y) = true

def summaryOf (S : Setting F) (first : Memory F) (sources : List (Memory F)) (content groupTag summaryId : String)
    (createdAt : ℕ) : Memory F where
  id := summaryId
  agentId := first.agentId
  agentName := first.agentName
  memoryType := .fact
  content := trim content
  importance := sources.foldl (fun importance source => S.larger importance source.importance) S.zero
  createdAt := createdAt
  tags := some ["runtime", "tool-memory-consolidate", groupTag]
  scope := first.scope
  roomId := first.roomId
  worldId := none
  sessionId := none

theorem prepareImages_eq_ok {sources : List (Memory F)} {content groupTag summaryId : String} {createdAt : ℕ}
    {images : ConsolidationImages F} : prepareImages S sources content groupTag summaryId createdAt = .ok images ↔
      validateRequest sources.length content groupTag summaryId = .ok () ∧ ∃ first rest, sources = first :: rest ∧
      (∀ p ∈ sources.zipIdx, validateSource S first (sources.take p.2) summaryId p.1 = .ok ()) ∧
      images = ⟨sources, sources.map (archived groupTag),
        summaryOf S first sources content groupTag summaryId createdAt⟩ := by
  unfold prepareImages
  rw [bind_eq_ok]
  cases sources with
  | nil =>
    constructor
    · rintro ⟨_, -, herror⟩
      cases herror
    · rintro ⟨-, first, rest, hnil, -⟩
      cases hnil
  | cons first rest =>
    simp only [bind_eq_ok, forM_eq_ok, pure, Except.pure, Except.ok.injEq]
    constructor
    · rintro ⟨_, hrequest, _, hall, rfl⟩
      exact ⟨hrequest, first, rest, rfl, fun p hp => hall p hp, rfl⟩
    · rintro ⟨hrequest, _, _, hcons, hall, rfl⟩
      cases hcons
      exact ⟨(), hrequest, (), fun p hp => hall p hp, rfl⟩

theorem validateSource_eq_ok {first source : Memory F} {earlier : List (Memory F)} {summaryId : String} :
    validateSource S first earlier summaryId source = .ok () ↔ validateSourceInput source.id source.content = .ok () ∧
      (source.id ≠ summaryId ∧ (earlier.all fun other => other.id != source.id) = true) ∧
      (source.memoryType = .fact ∧ source.worldId = none ∧ source.sessionId = none) ∧
      (source.agentId = first.agentId ∧ source.scope = first.scope ∧ source.roomId = first.roomId ∧
        ¬ (source.scope = .room ∧ (source.roomId.any fun room => room != "") = false)) ∧
      (source.tags.any fun tags => decide (20 ≤ tags.length)) = false ∧ S.inUnit source.importance = true := by
  unfold validateSource
  simp only [bind_eq_ok, ensure_eq_ok]
  constructor
  · rintro ⟨_, hinput, _, hid, _, hplain, _, hcohort, _, htags, hunit⟩
    exact ⟨hinput, hid, hplain, hcohort, htags, hunit⟩
  · rintro ⟨hinput, hid, hplain, hcohort, htags, hunit⟩
    exact ⟨(), hinput, (), hid, (), hplain, (), hcohort, (), htags, hunit⟩

theorem nodup_of_zipIdx {α : Type} {id : α → String} {l : List α}
    (h : ∀ p ∈ l.zipIdx, ((l.take p.2).all fun other => id other != id p.1) = true) : (l.map id).Nodup := by
  unfold List.Nodup
  rw [List.pairwise_map, List.pairwise_iff_getElem]
  intro i j hi hj hij
  have hlast := h (l[j], j) (List.mem_zipIdx_iff_getElem?.mpr (List.getElem?_eq_getElem hj))
  rw [List.all_eq_true] at hlast
  have hmem : l[i] ∈ l.take j := List.mem_take_iff_getElem.mpr ⟨i, by omega, rfl⟩
  simpa using hlast _ hmem

variable (S) in
/-- What the images of a prepared consolidation have in common. -/
structure Images (images : ConsolidationImages F) (groupTag : String) : Prop where
  after : images.sourcesAfter = images.sourcesBefore.map (archived groupTag)
  ids : (images.sourcesBefore.map (·.id)).Nodup
  summary : ∀ source ∈ images.sourcesBefore, source.id ≠ images.summary.id
  units : ∀ source ∈ images.sourcesBefore, S.inUnit source.importance = true

theorem images_spec {sources : List (Memory F)} {content groupTag summaryId : String} {createdAt : ℕ}
    {images : ConsolidationImages F} (h : prepareImages S sources content groupTag summaryId createdAt = .ok images) :
    images.sourcesBefore = sources ∧ Images S images groupTag := by
  obtain ⟨-, first, rest, -, hall, rfl⟩ := prepareImages_eq_ok.mp h
  have heach : ∀ source ∈ sources, source.id ≠ summaryId ∧ S.inUnit source.importance = true := by
    intro source hsource
    obtain ⟨i, hi⟩ := List.mem_iff_getElem?.mp hsource
    obtain ⟨-, ⟨hid, -⟩, -, -, -, hunit⟩ := validateSource_eq_ok.mp (hall (source, i) (List.mem_zipIdx_iff_getElem?.mpr hi))
    exact ⟨hid, hunit⟩
  refine ⟨rfl, rfl, nodup_of_zipIdx fun p hp => ?_, fun source hsource => (heach source hsource).1,
    fun source hsource => (heach source hsource).2⟩
  exact (validateSource_eq_ok.mp (hall p hp)).2.1.2

theorem sameMemory_self (h : S.Comparable) {memory : Memory F} (hunit : S.inUnit memory.importance = true) :
    sameMemory S memory memory = true := by
  unfold sameMemory
  rw [h.same_self _ hunit]
  simp

theorem sameMemories_self (h : S.Comparable) {l : List (Memory F)}
    (hunits : ∀ memory ∈ l, S.inUnit memory.importance = true) : sameMemories S l l = true := by
  unfold sameMemories
  rw [Bool.and_eq_true_iff, beq_iff_eq, List.all_eq_true]
  refine ⟨rfl, fun pair hpair => ?_⟩
  have hsame : pair.1 = pair.2 := by
    have hpairs := List.zip_map' (f := fun memory : Memory F => memory) (g := fun memory => memory) (l := l)
    simp only [List.map_id'] at hpairs
    rw [hpairs] at hpair
    obtain ⟨memory, -, rfl⟩ := List.mem_map.mp hpair
    rfl
  rw [← hsame]
  exact sameMemory_self h (hunits _ (List.of_mem_zip hpair).1)

theorem summaryOf_inUnit (h : S.Comparable) {first : Memory F} {sources : List (Memory F)}
    {content groupTag summaryId : String} {createdAt : ℕ} (hunits : ∀ source ∈ sources, S.inUnit source.importance = true) :
    S.inUnit (summaryOf S first sources content groupTag summaryId createdAt).importance = true := by
  show S.inUnit (sources.foldl (fun importance source => S.larger importance source.importance) S.zero) = true
  have hall : ∀ (l : List (Memory F)) (start : F), S.inUnit start = true →
      (∀ source ∈ l, S.inUnit source.importance = true) → S.inUnit (l.foldl (fun importance source => S.larger importance source.importance) start) = true := by
    intro l
    induction l with
    | nil => intro start hstart _; exact hstart
    | cons source l ih =>
      intro start hstart hl
      exact ih _ (h.larger_inUnit _ _ hstart (hl source List.mem_cons_self)) fun other hother =>
        hl other (List.mem_cons_of_mem _ hother)
  exact hall sources S.zero h.zero_inUnit hunits

/-! ## The journal -/

theorem fromImages_eq_ok {before after : List (Memory F)} {summary : Memory F} {p : PreparedMemoryConsolidation S} :
    PreparedMemoryConsolidation.fromImages S before after summary = .ok p ↔ ∃ tags, summary.tags = some tags ∧
      tags.length = 3 ∧
      prepareImages S before summary.content (tags.getD 2 "") summary.id summary.createdAt = .ok p.1 ∧
      sameMemory S p.1.summary summary = true ∧ sameMemories S p.1.sourcesAfter after = true := by
  unfold PreparedMemoryConsolidation.fromImages
  simp only [bind_eq_ok, okOr_eq_ok, Option.filter_eq_some_iff, decide_eq_true_eq]
  constructor
  · rintro ⟨tags, ⟨htags, hlen⟩, h⟩
    split at h
    · cases h
    · next expected himages =>
      split_ifs at h with hsame
      cases h
      exact ⟨tags, htags, hlen, himages, (Bool.and_eq_true_iff.mp hsame).1, (Bool.and_eq_true_iff.mp hsame).2⟩
  · rintro ⟨tags, htags, hlen, himages, hsummary, hafter⟩
    refine ⟨tags, ⟨htags, hlen⟩, ?_⟩
    split
    · next e herror =>
      rw [himages] at herror
      cases herror
    · next expected hexpected =>
      have hsame : expected = p.1 := Except.ok.inj (hexpected.symm.trans himages)
      subst hsame
      rw [if_pos (Bool.and_eq_true_iff.mpr ⟨hsummary, hafter⟩)]
      rfl

theorem fromImages_prepared (h : S.Comparable) (p : PreparedMemoryConsolidation S) :
    PreparedMemoryConsolidation.fromImages S p.1.sourcesBefore p.1.sourcesAfter p.1.summary = .ok p := by
  obtain ⟨sources, content, groupTag, summaryId, createdAt, himages⟩ := p.2
  obtain ⟨hrequest, first, rest, hcons, hall, hp⟩ := prepareImages_eq_ok.mp himages
  have hunits := (images_spec himages).2.units
  rw [fromImages_eq_ok]
  rw [hp] at hunits ⊢
  refine ⟨_, rfl, rfl, ?_, ?_, ?_⟩
  · refine prepareImages_eq_ok.mpr ⟨validateRequest_trim hrequest, first, rest, hcons, hall, ?_⟩
    unfold summaryOf
    simp only [trim_trim]
    rfl
  · exact sameMemory_self h (summaryOf_inUnit h hunits)
  · refine sameMemories_self h fun memory hmemory => ?_
    obtain ⟨source, hsource, rfl⟩ := List.mem_map.mp hmemory
    exact hunits source hsource

/-! ## The two states -/

/-- The summary is not there, and the sources are as they were. -/
structure Before (m : MemoryManager F) (p : PreparedMemoryConsolidation S) : Prop where
  summary : p.1.summary.id ∉ m.memories
  sources : ∀ source ∈ p.1.sourcesBefore, ∃ memory, m.memories[source.id]? = some memory ∧ sameMemory S memory source = true

/-- The summary is there, and the sources are archived. -/
structure After (m : MemoryManager F) (p : PreparedMemoryConsolidation S) : Prop where
  summary : ∃ memory, m.memories[p.1.summary.id]? = some memory ∧ sameMemory S memory p.1.summary = true
  sources : ∀ source ∈ p.1.sourcesAfter, ∃ memory, m.memories[source.id]? = some memory ∧ sameMemory S memory source = true

variable {m : MemoryManager F} {p : PreparedMemoryConsolidation S}

theorem hasExactly_iff {sources : List (Memory F)} : m.hasExactly S sources = true ↔
    ∀ source ∈ sources, ∃ memory, m.memories[source.id]? = some memory ∧ sameMemory S memory source = true := by
  unfold MemoryManager.hasExactly
  rw [List.all_eq_true]
  simp only [Option.any_eq_true]

theorem Before.not_after (h : Before m p) : ¬ After m p := by
  rintro ⟨⟨memory, hmemory, -⟩, -⟩
  exact h.summary (Table.mem_of_getElem? hmemory)

theorem state_eq_before : m.factConsolidationState S p = .before ↔ Before m p := by
  have hiff : (m.memories[p.1.summary.id]?.isNone && m.hasExactly S p.1.sourcesBefore) = true ↔ Before m p := by
    rw [Bool.and_eq_true_iff, hasExactly_iff, Option.isNone_iff_eq_none, ← Table.not_mem_iff_getElem?_eq_none]
    exact ⟨fun ⟨hsummary, hsources⟩ => ⟨hsummary, hsources⟩, fun ⟨hsummary, hsources⟩ => ⟨hsummary, hsources⟩⟩
  rw [← hiff]
  unfold MemoryManager.factConsolidationState
  split_ifs with hbefore hafter
  · simp [hbefore]
  · simp [hbefore]
  · simp [hbefore]

theorem state_eq_after : m.factConsolidationState S p = .after ↔ After m p := by
  have hiff : ((m.memories[p.1.summary.id]?.any fun memory => sameMemory S memory p.1.summary) &&
      m.hasExactly S p.1.sourcesAfter) = true ↔ After m p := by
    rw [Bool.and_eq_true_iff, hasExactly_iff, Option.any_eq_true]
    exact ⟨fun ⟨hsummary, hsources⟩ => ⟨hsummary, hsources⟩, fun ⟨hsummary, hsources⟩ => ⟨hsummary, hsources⟩⟩
  constructor
  · intro hstate
    unfold MemoryManager.factConsolidationState at hstate
    split_ifs at hstate with hbefore hafter
    exact hiff.mp hafter
  · intro hafter
    have hnot : m.factConsolidationState S p ≠ .before := fun hstate => (state_eq_before.mp hstate).not_after hafter
    unfold MemoryManager.factConsolidationState at hnot ⊢
    split_ifs at hnot ⊢ with hbefore hafter'
    · exact absurd rfl hnot
    · rfl
    · exact absurd (hiff.mpr hafter) hafter'

/-! ## The calls -/

variable (m p) in
def applied : MemoryManager F := (p.1.sourcesAfter ++ [p.1.summary]).foldl (MemoryManager.putMemory S) m

variable (m p) in
def undone : MemoryManager F := (p.1.sourcesBefore.foldl (MemoryManager.putMemory S) m).forget p.1.summary.id

variable (m) in
def cites (id : String) : Bool :=
  (m.agentRelationships.vals.any fun r => r.evidenceMemoryIds.contains id) ||
    (m.temporalFacts.vals.any fun f => f.evidenceMemoryIds.contains id) ||
    (m.temporalRelationships.vals.any fun r => r.evidenceMemoryIds.contains id)

theorem apply_call (visible : Memory F → Bool) : (MemoryManager.applyFactConsolidation S p visible).call m =
    if m.factConsolidationState S p = .before then
      if (p.1.sourcesBefore.all visible && visible p.1.summary) = true then
        (.ok ⟨p.1.summary, p.1.sourcesAfter.map (·.id)⟩, applied m p)
      else (.error .sourceUnavailable, m)
    else (.error .stateDiverged, m) := by
  unfold MemoryManager.applyFactConsolidation
  simp only [Method.get_bind_call, Method.check_ensure_bind_call, Method.set_bind_call, Method.call_pure]
  rfl

theorem undo_call (visible : Memory F → Bool) : (MemoryManager.undoFactConsolidation S p visible).call m =
    if m.factConsolidationState S p = .after then
      if (p.1.sourcesAfter.all visible && visible p.1.summary) = true then
        if cites m p.1.summary.id = false then (.ok (), undone m p) else (.error .summaryCited, m)
      else (.error .sourceUnavailable, m)
    else (.error .stateDiverged, m) := by
  unfold MemoryManager.undoFactConsolidation cites
  simp only [Method.get_bind_call, Method.check_ensure_bind_call, Method.set_bind_call, Method.call_pure]
  rfl

/-! ## What the calls change -/

def imageOf (images : List (Memory F)) (id : String) : Option (Memory F) :=
  images.find? fun memory => decide (memory.id = id)

theorem imageOf_eq_some {images : List (Memory F)} (hnd : (images.map (·.id)).Nodup) {id : String} {memory : Memory F} :
    imageOf images id = some memory ↔ memory ∈ images ∧ memory.id = id :=
  Table.find?_key_eq_some hnd

theorem imageOf_eq_none {images : List (Memory F)} {id : String} : imageOf images id = none ↔ id ∉ images.map (·.id) := by
  unfold imageOf
  rw [List.find?_eq_none, List.mem_map]
  simp

theorem foldl_putMemory_memories (images : List (Memory F)) (hnd : (images.map (·.id)).Nodup) (id : String) :
    (images.foldl (MemoryManager.putMemory S) m).memories[id]? = (imageOf images id).or m.memories[id]? := by
  have hload : (images.foldl (MemoryManager.putMemory S) m).memories = Table.load (·.id) m.memories images :=
    Table.foldl_load (g := MemoryManager.memories) (fun _ _ => rfl) images m
  have hlookup := Table.getElem?_foldl_insert (t := m.memories) (fun memory : Memory F => memory.id) (fun memory => memory)
    hnd id
  rw [hload]
  unfold Table.load imageOf
  rw [hlookup, Option.map_id']

theorem foldl_putMemory_rest (images : List (Memory F)) :
    (images.foldl (MemoryManager.putMemory S) m).memoryEntities = m.memoryEntities ∧
    (images.foldl (MemoryManager.putMemory S) m).agentRelationships = m.agentRelationships ∧
    (images.foldl (MemoryManager.putMemory S) m).temporalFacts = m.temporalFacts ∧
    (images.foldl (MemoryManager.putMemory S) m).temporalRelationships = m.temporalRelationships :=
  ⟨foldl_keeps (f := MemoryManager.putMemory S) (g := MemoryManager.memoryEntities) (fun _ _ => rfl) images m,
    foldl_keeps (f := MemoryManager.putMemory S) (g := MemoryManager.agentRelationships) (fun _ _ => rfl) images m,
    foldl_keeps (f := MemoryManager.putMemory S) (g := MemoryManager.temporalFacts) (fun _ _ => rfl) images m,
    foldl_keeps (f := MemoryManager.putMemory S) (g := MemoryManager.temporalRelationships) (fun _ _ => rfl) images m⟩

/-- The records other than the memories are as they were. -/
structure SameRecords (m m' : MemoryManager F) : Prop where
  entities : m'.memoryEntities = m.memoryEntities
  relationships : m'.agentRelationships = m.agentRelationships
  facts : m'.temporalFacts = m.temporalFacts
  temporalRelationships : m'.temporalRelationships = m.temporalRelationships

variable (m p) in
theorem sameRecords_applied : SameRecords m (applied m p) := by
  obtain ⟨hentities, hrelationships, hfacts, htemporal⟩ :=
    foldl_putMemory_rest (S := S) (m := m) (p.1.sourcesAfter ++ [p.1.summary])
  exact ⟨hentities, hrelationships, hfacts, htemporal⟩

variable (m p) in
theorem sameRecords_undone : SameRecords m (undone m p) := by
  obtain ⟨hentities, hrelationships, hfacts, htemporal⟩ := foldl_putMemory_rest (S := S) (m := m) p.1.sourcesBefore
  exact ⟨hentities, hrelationships, hfacts, htemporal⟩

theorem exists_images (p : PreparedMemoryConsolidation S) : ∃ groupTag, Images S p.1 groupTag := by
  obtain ⟨sources, content, groupTag, summaryId, createdAt, himages⟩ := p.2
  exact ⟨groupTag, (images_spec himages).2⟩

theorem Images.after_ids {images : ConsolidationImages F} {groupTag : String} (h : Images S images groupTag) :
    images.sourcesAfter.map (·.id) = images.sourcesBefore.map (·.id) := by
  rw [h.after, List.map_map]
  rfl

theorem Images.applied_ids {images : ConsolidationImages F} {groupTag : String} (h : Images S images groupTag) :
    ((images.sourcesAfter ++ [images.summary]).map (·.id)).Nodup := by
  rw [List.map_append, h.after_ids, List.nodup_append]
  refine ⟨h.ids, List.nodup_singleton _, ?_⟩
  rintro id hid _ hlast rfl
  obtain ⟨source, hsource, hsame⟩ := List.mem_map.mp hid
  exact h.summary source hsource (hsame.trans (List.mem_singleton.mp hlast))

theorem applied_memories (p : PreparedMemoryConsolidation S) (id : String) : (applied m p).memories[id]? =
    (imageOf (p.1.sourcesAfter ++ [p.1.summary]) id).or m.memories[id]? := by
  obtain ⟨groupTag, himages⟩ := exists_images p
  exact foldl_putMemory_memories _ himages.applied_ids id

theorem applied_image (p : PreparedMemoryConsolidation S) {memory : Memory F}
    (hmem : memory ∈ p.1.sourcesAfter ++ [p.1.summary]) : (applied m p).memories[memory.id]? = some memory := by
  obtain ⟨groupTag, himages⟩ := exists_images p
  rw [applied_memories, (imageOf_eq_some himages.applied_ids).mpr ⟨hmem, rfl⟩]
  rfl

theorem after_applied (h : S.Comparable) (p : PreparedMemoryConsolidation S) : After (applied m p) p := by
  obtain ⟨sources, content, groupTag, summaryId, createdAt, hprepared⟩ := p.2
  have himages := (images_spec hprepared).2
  have hsummary : S.inUnit p.1.summary.importance = true := by
    obtain ⟨-, first, rest, -, -, hp⟩ := prepareImages_eq_ok.mp hprepared
    have hunits := himages.units
    rw [hp] at hunits ⊢
    exact summaryOf_inUnit h hunits
  refine ⟨⟨_, applied_image p (List.mem_append_right _ List.mem_cons_self), sameMemory_self h hsummary⟩, fun source hsource =>
    ⟨_, applied_image p (List.mem_append_left _ hsource), sameMemory_self h ?_⟩⟩
  rw [himages.after] at hsource
  obtain ⟨before, hbefore, rfl⟩ := List.mem_map.mp hsource
  exact himages.units before hbefore

theorem undone_applied_memories (h : Before m p) (id : String) : (undone (applied m p) p).memories[id]? =
    (imageOf p.1.sourcesBefore id).or m.memories[id]? := by
  obtain ⟨groupTag, himages⟩ := exists_images p
  have hput := foldl_putMemory_memories (S := S) (m := applied m p) p.1.sourcesBefore himages.ids id
  unfold undone MemoryManager.forget
  simp only
  rw [Table.getElem?_erase_eq, hput]
  by_cases hid : p.1.summary.id = id
  · subst hid
    have hnone : imageOf p.1.sourcesBefore p.1.summary.id = none := by
      rw [imageOf_eq_none]
      intro hmem
      obtain ⟨source, hsource, hsame⟩ := List.mem_map.mp hmem
      exact himages.summary source hsource hsame
    rw [if_pos rfl, hnone, Table.not_mem_iff_getElem?_eq_none.mp h.summary]
    rfl
  · rw [if_neg hid]
    cases hsource : imageOf p.1.sourcesBefore id with
    | some source => rfl
    | none =>
      have hnone : imageOf (p.1.sourcesAfter ++ [p.1.summary]) id = none := by
        rw [imageOf_eq_none] at hsource ⊢
        rw [List.map_append, himages.after_ids, List.mem_append]
        rintro (hmem | hmem)
        · exact hsource hmem
        · exact hid (List.mem_singleton.mp hmem).symm
      rw [applied_memories, hnone]
      rfl

/-! ## The index -/

theorem Bm25.ext_of_exact {ix ix' : Bm25} (h : ix.Exact) (h' : ix'.Exact)
    (hterms : ∀ id : String, ix.docs[id]?.map (·.terms) = ix'.docs[id]?.map (·.terms)) : ix = ix' := by
  have htally : ∀ {t t' : Tally String} {n : String → ℕ}, t.Counts n → t'.Counts n → t = t' :=
    fun ht ht' => Table.ext_getElem? fun k => (ht k).trans (ht' k).symm
  have hdocs : ix.docs = ix'.docs := by
    refine Table.ext_getElem? fun id => ?_
    have hid := hterms id
    cases hdoc : ix.docs[id]? with
    | none =>
      rw [hdoc, Option.map_none, eq_comm, Option.map_eq_none_iff] at hid
      exact hid.symm
    | some doc =>
      rw [hdoc, Option.map_some, eq_comm, Option.map_eq_some_iff] at hid
      obtain ⟨doc', hdoc', hsame⟩ := hid
      rw [hdoc']
      have hnamed := (h.named id doc hdoc).trans (h'.named id doc' hdoc').symm
      have hfreqs : doc.termFreqs = doc'.termFreqs := by
        have hcounts := h'.terms id doc' hdoc'
        rw [hsame] at hcounts
        exact htally (h.terms id doc hdoc) hcounts
      cases doc
      cases doc'
      simp only at hnamed hsame hfreqs
      rw [hnamed, hsame, hfreqs]
  have hfreq : ix.docFreq = ix'.docFreq := by
    have hcounts := h'.docFreq
    rw [← hdocs] at hcounts
    exact htally h.docFreq hcounts
  cases ix
  cases ix'
  simp only at hdocs hfreq
  rw [hdocs, hfreq]

theorem Indexed.index_eq {m' : MemoryManager F} (h : Indexed S m) (h' : Indexed S m')
    (htexts : ∀ id : String, m.memories[id]?.map buildIndexText = m'.memories[id]?.map buildIndexText) :
    m.index = m'.index := by
  refine Bm25.ext_of_exact h.exact h'.exact fun id => ?_
  rw [h.docs, h'.docs]
  have hterms := congrArg (Option.map S.tokenize) (htexts id)
  rwa [Option.map_map, Option.map_map] at hterms

theorem sameMemory_text {left right : Memory F} (h : sameMemory S left right = true) :
    buildIndexText left = buildIndexText right := by
  simp only [sameMemory, Bool.and_eq_true, decide_eq_true_eq] at h
  obtain ⟨⟨⟨-, -, hname, htype, hcontent⟩, -⟩, -, htags, hscope, hroom, hworld, hsession⟩ := h
  unfold buildIndexText
  rw [hname, htype, hcontent, htags, hscope, hroom, hworld, hsession]

/-- A store that a consolidation was undone in is the one it was applied to: the sources are equal to what they were, as the
code compares them, the other memories and records are the same, and so is the index. -/
structure Restored (m m' : MemoryManager F) (p : PreparedMemoryConsolidation S) : Prop where
  sources : ∀ source ∈ p.1.sourcesBefore, m'.memories[source.id]? = some source ∧
    ∃ memory, m.memories[source.id]? = some memory ∧ sameMemory S memory source = true
  others : ∀ id : String, id ∉ p.1.sourcesBefore.map (·.id) → m'.memories[id]? = m.memories[id]?
  index : m'.index = m.index
  records : SameRecords m m'

theorem restored_undone (hindexed : Indexed S m) (hbefore : Before m p) : Restored m (undone (applied m p) p) p := by
  obtain ⟨groupTag, himages⟩ := exists_images p
  have hsources : ∀ source ∈ p.1.sourcesBefore, (undone (applied m p) p).memories[source.id]? = some source := by
    intro source hsource
    rw [undone_applied_memories hbefore, (imageOf_eq_some himages.ids).mpr ⟨hsource, rfl⟩]
    rfl
  have hothers : ∀ id : String, id ∉ p.1.sourcesBefore.map (·.id) →
      (undone (applied m p) p).memories[id]? = m.memories[id]? := by
    intro id hid
    rw [undone_applied_memories hbefore, imageOf_eq_none.mpr hid]
    rfl
  refine ⟨fun source hsource => ⟨hsources source hsource, hbefore.sources source hsource⟩, hothers, ?_, ?_⟩
  · have happlied : Indexed S (applied m p) := hindexed.foldl_putMemory _
    have hundone : Indexed S (undone (applied m p) p) := (happlied.foldl_putMemory _).forget _
    refine hundone.index_eq hindexed fun id => ?_
    by_cases hid : id ∈ p.1.sourcesBefore.map (·.id)
    · obtain ⟨source, hsource, rfl⟩ := List.mem_map.mp hid
      obtain ⟨memory, hmemory, hsame⟩ := hbefore.sources source hsource
      rw [hsources source hsource, hmemory, Option.map_some, Option.map_some, sameMemory_text hsame]
    · rw [hothers id hid]
  · have hfirst := sameRecords_applied m p
    have hsecond := sameRecords_undone (applied m p) p
    exact ⟨hsecond.entities.trans hfirst.entities, hsecond.relationships.trans hfirst.relationships,
      hsecond.facts.trans hfirst.facts, hsecond.temporalRelationships.trans hfirst.temporalRelationships⟩

theorem Restored.eq {m' : MemoryManager F} (h : Restored m m' p)
    (hexact : ∀ source ∈ p.1.sourcesBefore, m.memories[source.id]? = some source) : m' = m := by
  have hmemories : m'.memories = m.memories := by
    refine Table.ext_getElem? fun id => ?_
    by_cases hid : id ∈ p.1.sourcesBefore.map (·.id)
    · obtain ⟨source, hsource, rfl⟩ := List.mem_map.mp hid
      rw [(h.sources source hsource).1, hexact source hsource]
    · exact h.others id hid
  have hentities := h.records.entities
  have hrelationships := h.records.relationships
  have hfacts := h.records.facts
  have htemporal := h.records.temporalRelationships
  have hindex := h.index
  cases m
  cases m'
  simp only at hmemories hentities hrelationships hfacts htemporal hindex
  rw [hmemories, hentities, hrelationships, hfacts, htemporal, hindex]

/-! ## Preparing -/

section

variable (m : MemoryManager F) (agentId : String) (roomId : Option String) (sources : List MemoryConsolidationSource)
  (visible : Memory F → Bool)

/-- The checks of `prepare_fact_consolidation` on one source, and the memory. -/
def preparedSource (entry : MemoryConsolidationSource × ℕ) : Except MemoryConsolidationError (Memory F) := do
  validateSourceInput entry.1.id entry.1.expectedContent
  ensure (((sources.take entry.2).all fun other => other.id != entry.1.id) = true) .invalidInput
  let memory ← okOr (m.memories[entry.1.id]?.filter fun memory =>
    decide (memory.agentId = agentId ∧ memory.memoryType = .fact ∧ memory.worldId = none ∧ memory.sessionId = none) &&
      visible memory) .sourceUnavailable
  ensure (memory.content = entry.1.expectedContent) .sourceChanged
  ensure (¬ (memory.scope = .room ∧
    (roomId.any fun room => room != "" && memory.roomId == some room) = false)) .incompatibleCohort
  return memory

end

theorem preparedSource_eq_ok {agentId : String} {roomId : Option String} {sources : List MemoryConsolidationSource}
    {visible : Memory F → Bool} {entry : MemoryConsolidationSource × ℕ} {memory : Memory F} :
    preparedSource m agentId roomId sources visible entry = .ok memory ↔
      validateSourceInput entry.1.id entry.1.expectedContent = .ok () ∧
      ((sources.take entry.2).all fun other => other.id != entry.1.id) = true ∧
      m.memories[entry.1.id]? = some memory ∧
      (memory.agentId = agentId ∧ memory.memoryType = .fact ∧ memory.worldId = none ∧ memory.sessionId = none) ∧
      visible memory = true ∧ memory.content = entry.1.expectedContent ∧
      ¬ (memory.scope = .room ∧ (roomId.any fun room => room != "" && memory.roomId == some room) = false) := by
  unfold preparedSource
  simp only [bind_eq_ok, ensure_eq_ok, okOr_eq_ok, Option.filter_eq_some_iff, Bool.and_eq_true, decide_eq_true_eq, pure,
    Except.pure, Except.ok.injEq]
  constructor
  · rintro ⟨_, hinput, _, hdistinct, _, ⟨hlookup, hplain, hvisible⟩, _, hcontent, _, hcohort, rfl⟩
    exact ⟨hinput, hdistinct, hlookup, hplain, hvisible, hcontent, hcohort⟩
  · rintro ⟨hinput, hdistinct, hlookup, hplain, hvisible, hcontent, hcohort⟩
    exact ⟨(), hinput, (), hdistinct, memory, ⟨hlookup, hplain, hvisible⟩, (), hcontent, (), hcohort, rfl⟩

theorem prepareFactConsolidation_eq_ok {agentId : String} {roomId : Option String}
    {sources : List MemoryConsolidationSource} {content groupTag summaryId : String} {now : ℕ}
    {visible : Memory F → Bool} :
    m.prepareFactConsolidation S agentId roomId sources content groupTag summaryId now visible = .ok p ↔
      validateRequest sources.length content groupTag summaryId = .ok () ∧ summaryId ∉ m.memories ∧
      List.Forall₂ (fun entry memory => preparedSource m agentId roomId sources visible entry = .ok memory) sources.zipIdx
        p.1.sourcesBefore ∧
      prepareImages S p.1.sourcesBefore content groupTag summaryId now = .ok p.1 := by
  unfold MemoryManager.prepareFactConsolidation
  simp only [bind_eq_ok, ensure_eq_ok]
  constructor
  · rintro ⟨_, hrequest, _, hfree, before, hsources, h⟩
    split at h
    · cases h
    · next images himages =>
      cases h
      have hbefore := (images_spec himages).1
      simp only
      rw [hbefore]
      exact ⟨hrequest, hfree, mapM_eq_ok.mp hsources, himages⟩
  · rintro ⟨hrequest, hfree, hsources, himages⟩
    refine ⟨(), hrequest, (), hfree, p.1.sourcesBefore, mapM_eq_ok.mpr hsources, ?_⟩
    split
    · next e herror =>
      rw [himages] at herror
      cases herror
    · next images himages' =>
      have hsame : images = p.1 := Except.ok.inj (himages'.symm.trans himages)
      subst hsame
      rfl

theorem prepared_exact (hindexed : Indexed S m) {agentId : String} {roomId : Option String}
    {sources : List MemoryConsolidationSource} {content groupTag summaryId : String} {now : ℕ}
    {visible : Memory F → Bool}
    (h : m.prepareFactConsolidation S agentId roomId sources content groupTag summaryId now visible = .ok p) :
    p.1.summary.id ∉ m.memories ∧ ∀ source ∈ p.1.sourcesBefore, m.memories[source.id]? = some source := by
  obtain ⟨-, hfree, hsources, himages⟩ := prepareFactConsolidation_eq_ok.mp h
  refine ⟨?_, fun source hsource => ?_⟩
  · obtain ⟨-, first, rest, -, -, hp⟩ := prepareImages_eq_ok.mp himages
    rw [hp]
    exact hfree
  · obtain ⟨hlen, heach⟩ := List.forall₂_iff_get.mp hsources
    obtain ⟨i, hi, rfl⟩ := List.mem_iff_getElem.mp hsource
    obtain ⟨-, -, hlookup, -⟩ := preparedSource_eq_ok.mp (heach i (by omega) hi)
    have hid := hindexed.named _ _ hlookup
    exact (congrArg (fun id : String => m.memories[id]?) hid).trans hlookup

theorem Before.of_exact (h : S.Comparable) (hsummary : p.1.summary.id ∉ m.memories)
    (hexact : ∀ source ∈ p.1.sourcesBefore, m.memories[source.id]? = some source) : Before m p := by
  obtain ⟨groupTag, himages⟩ := exists_images p
  exact ⟨hsummary, fun source hsource => ⟨source, hexact source hsource, sameMemory_self h (himages.units source hsource)⟩⟩

theorem fromImages_sound {before after : List (Memory F)} {summary : Memory F}
    (h : PreparedMemoryConsolidation.fromImages S before after summary = .ok p) :
    p.1.sourcesBefore = before ∧ sameMemories S p.1.sourcesAfter after = true ∧ sameMemory S p.1.summary summary = true ∧
    ∃ (calls : List (Op S)) (agentId : String) (roomId : Option String) (sources : List MemoryConsolidationSource)
      (groupTag : String), (run (step S) (Process.new ⟨0, 0, 0, 0⟩) calls).manager.prepareFactConsolidation S agentId roomId
        sources summary.content groupTag summary.id summary.createdAt (fun _ => true) = .ok p := by
  obtain ⟨tags, htags, hlen, himages, hsummary, hafter⟩ := fromImages_eq_ok.mp h
  obtain ⟨hbefore, hspec⟩ := images_spec himages
  obtain ⟨hrequest, first, rest, hcons, hall, hp⟩ := prepareImages_eq_ok.mp himages
  refine ⟨hbefore, hafter, hsummary, [.replaceSnapshot (fun _ => 0) ⟨before, [], [], [], []⟩], first.agentId, first.roomId,
    before.map fun memory => ⟨memory.id, memory.content⟩, tags.getD 2 "", ?_⟩
  have hids : (before.map (·.id)).Nodup := hbefore ▸ hspec.ids
  have hmemories : ∀ id : String, (run (step S) (Process.new ⟨0, 0, 0, 0⟩)
      [.replaceSnapshot (fun _ => 0) ⟨before, [], [], [], []⟩]).manager.memories[id]? = imageOf before id := by
    intro id
    show (MemoryManager.new.replaceSnapshot S (fun _ => 0) ⟨before, [], [], [], []⟩).memories[id]? = _
    have hlookup := Table.getElem?_foldl_insert (t := (∅ : Table String (Memory F))) (fun memory : Memory F => memory.id)
      (fun memory => memory) hids id
    rw [replaceSnapshot_memories]
    unfold Table.load imageOf
    rw [hlookup]
    simp
  rw [prepareFactConsolidation_eq_ok, hbefore]
  refine ⟨by rw [List.length_map]; exact hrequest, ?_, ?_, himages⟩
  · rw [Table.not_mem_iff_getElem?_eq_none, hmemories, imageOf_eq_none, List.mem_map]
    rintro ⟨source, hsource, hid⟩
    have hsummaryId : p.1.summary.id = summary.id := by rw [hp]; rfl
    exact hspec.summary source (hbefore ▸ hsource) (hid.trans hsummaryId.symm)
  · rw [List.forall₂_iff_get]
    refine ⟨by simp, fun i hi hi' => ?_⟩
    have hentry : (before[i], i) ∈ before.zipIdx := List.mem_zipIdx_iff_getElem?.mpr (List.getElem?_eq_getElem hi')
    obtain ⟨hinput, ⟨-, hdistinct⟩, hplain, ⟨hagent, hscope, hroom, hcohort⟩, -, -⟩ :=
      validateSource_eq_ok.mp (hall (before[i], i) hentry)
    have hget : ((before.map fun memory => (⟨memory.id, memory.content⟩ : MemoryConsolidationSource)).zipIdx.get ⟨i, hi⟩) =
        (⟨before[i].id, before[i].content⟩, i) := by simp
    rw [hget, preparedSource_eq_ok]
    refine ⟨hinput, ?_, ?_, ⟨hagent, hplain.1, hplain.2.1, hplain.2.2⟩, rfl, rfl, ?_⟩
    · rw [← List.map_take, List.all_map]
      exact hdistinct
    · rw [hmemories]
      exact (imageOf_eq_some hids).mpr ⟨List.getElem_mem hi', rfl⟩
    · rintro ⟨hscoped, hnone⟩
      refine hcohort ⟨hscoped, ?_⟩
      rw [← hroom] at hnone
      cases hr : before[i].roomId with
      | none => rfl
      | some room => simpa [hr] using hnone

/-! ## Consolidations are reversible -/

/-- A store that a consolidation was applied to: the sources are archived, the summary is there, and nothing else changed. -/
structure Applied (m m' : MemoryManager F) (p : PreparedMemoryConsolidation S) : Prop where
  images : ∀ memory ∈ p.1.sourcesAfter ++ [p.1.summary], m'.memories[memory.id]? = some memory
  others : ∀ id : String, id ∉ p.1.sourcesBefore.map (·.id) → id ≠ p.1.summary.id → m'.memories[id]? = m.memories[id]?
  records : SameRecords m m'

variable (m p) in
theorem applied_applied : Applied m (applied m p) p := by
  obtain ⟨groupTag, himages⟩ := exists_images p
  refine ⟨fun memory hmem => applied_image p hmem, fun id hsource hsummary => ?_, sameRecords_applied m p⟩
  have hnone : imageOf (p.1.sourcesAfter ++ [p.1.summary]) id = none := by
    rw [imageOf_eq_none, List.map_append, himages.after_ids, List.mem_append]
    rintro (hmem | hmem)
    · exact hsource hmem
    · exact hsummary (List.mem_singleton.mp hmem)
  rw [applied_memories, hnone]
  rfl

variable (m p) in
structure Reversible : Prop where
  /-- The state says what the store has. -/
  before : m.factConsolidationState S p = .before ↔ Before m p
  after : m.factConsolidationState S p = .after ↔ After m p
  exclusive : ¬ (Before m p ∧ After m p)
  /-- Before it, and only then, an application can start. -/
  starts : ∀ visible, ((MemoryManager.applyFactConsolidation S p visible).call m).1 ≠ .error .stateDiverged ↔ Before m p
  /-- An application ends in the state after it. -/
  applies : ∀ visible result m', (MemoryManager.applyFactConsolidation S p visible).call m = (.ok result, m') →
    Before m p ∧ Applied m m' p ∧ m'.factConsolidationState S p = .after
  /-- It can be undone at once where the memories are visible and nothing cites the summary. -/
  undoes : ∀ visible result m', (MemoryManager.applyFactConsolidation S p visible).call m = (.ok result, m') →
    ∀ visible', ((MemoryManager.undoFactConsolidation S p visible').call m').1 = .ok () ↔
      (p.1.sourcesAfter.all visible' && visible' p.1.summary) = true ∧ cites m p.1.summary.id = false
  /-- Undoing it restores the store; exactly, if the sources were the very images. -/
  restores : ∀ visible result m', (MemoryManager.applyFactConsolidation S p visible).call m = (.ok result, m') →
    ∀ visible' m'', (MemoryManager.undoFactConsolidation S p visible').call m' = (.ok (), m'') →
      Restored m m'' p ∧ ((∀ source ∈ p.1.sourcesBefore, m.memories[source.id]? = some source) → m'' = m)
  /-- A call that fails changes nothing. -/
  applyFails : ∀ visible error m', (MemoryManager.applyFactConsolidation S p visible).call m = (.error error, m') → m' = m
  undoFails : ∀ visible error m', (MemoryManager.undoFactConsolidation S p visible).call m = (.error error, m') → m' = m

theorem apply_eq_ok {visible : Memory F → Bool} {result : MemoryConsolidation F} {m' : MemoryManager F}
    (h : (MemoryManager.applyFactConsolidation S p visible).call m = (.ok result, m')) : Before m p ∧ m' = applied m p := by
  rw [apply_call] at h
  split_ifs at h with hstate hvisible
  · exact ⟨state_eq_before.mp hstate, (congrArg Prod.snd h).symm⟩
  · cases congrArg Prod.fst h
  · cases congrArg Prod.fst h

theorem cites_applied (id : String) : cites (applied m p) id = cites m id := by
  have hrecords := sameRecords_applied m p
  unfold cites
  rw [hrecords.relationships, hrecords.facts, hrecords.temporalRelationships]

theorem reversible (h : S.Comparable) (hindexed : Indexed S m) (p : PreparedMemoryConsolidation S) : Reversible m p where
  before := state_eq_before
  after := state_eq_after
  exclusive hboth := hboth.1.not_after hboth.2
  starts visible := by
    rw [apply_call, ← state_eq_before]
    split_ifs with hstate hvisible
    · simp [hstate]
    · simp [hstate]
    · simp [hstate]
  applies visible result m' happly := by
    obtain ⟨hbefore, rfl⟩ := apply_eq_ok happly
    exact ⟨hbefore, applied_applied m p, state_eq_after.mpr (after_applied h p)⟩
  undoes visible result m' happly visible' := by
    obtain ⟨hbefore, rfl⟩ := apply_eq_ok happly
    rw [undo_call, if_pos (state_eq_after.mpr (after_applied h p)), cites_applied]
    split_ifs with hvisible hcited
    · simp [hvisible, hcited]
    · simp [hcited]
    · simp [hvisible]
  restores visible result m' happly visible' m'' hundo := by
    obtain ⟨hbefore, rfl⟩ := apply_eq_ok happly
    rw [undo_call] at hundo
    split_ifs at hundo with hstate hvisible hcited
    · have hstore := congrArg Prod.snd hundo
      simp only at hstore
      subst hstore
      have hrestored := restored_undone hindexed hbefore
      exact ⟨hrestored, hrestored.eq⟩
    · cases congrArg Prod.fst hundo
    · cases congrArg Prod.fst hundo
    · cases congrArg Prod.fst hundo
  applyFails visible error m' hfail := by
    have hguarded := MemoryManager.applyFactConsolidation_guarded S p visible m
    rw [hfail] at hguarded
    exact hguarded.resolve_right (by simp)
  undoFails visible error m' hfail := by
    have hguarded := MemoryManager.undoFactConsolidation_guarded S p visible m
    rw [hfail] at hguarded
    exact hguarded.resolve_right (by simp)

/-- **Consolidations are reversible, and their journal is faithful**, after any calls. -/
theorem consolidation_is_reversible (S : Setting F) (h : S.Comparable) (counters : Counters) (calls : List (Op S))
    (p : PreparedMemoryConsolidation S) :
    let m := (run (step S) (Process.new counters) calls).manager
    Reversible m p ∧
    (∀ agentId roomId sources content groupTag summaryId now visible,
      m.prepareFactConsolidation S agentId roomId sources content groupTag summaryId now visible = .ok p →
        Before m p ∧ ∀ source ∈ p.1.sourcesBefore, m.memories[source.id]? = some source) ∧
    PreparedMemoryConsolidation.fromImages S p.1.sourcesBefore p.1.sourcesAfter p.1.summary = .ok p ∧
    ∀ before after summary, PreparedMemoryConsolidation.fromImages S before after summary = .ok p →
      p.1.sourcesBefore = before ∧ sameMemories S p.1.sourcesAfter after = true ∧
      sameMemory S p.1.summary summary = true ∧
      ∃ (calls : List (Op S)) (agentId : String) (roomId : Option String) (sources : List MemoryConsolidationSource)
        (groupTag : String), (run (step S) (Process.new ⟨0, 0, 0, 0⟩) calls).manager.prepareFactConsolidation S agentId
          roomId sources summary.content groupTag summary.id summary.createdAt (fun _ => true) = .ok p := by
  intro m
  have hindexed : Indexed S m := (filed_run S counters calls).2
  refine ⟨reversible h hindexed p, fun agentId roomId sources content groupTag summaryId now visible hprepared => ?_,
    fromImages_prepared h p, fun before after summary hjournal => fromImages_sound hjournal⟩
  obtain ⟨hsummary, hexact⟩ := prepared_exact hindexed hprepared
  exact ⟨.of_exact h hsummary hexact, hexact⟩

end

theorem hundredths_comparable : hundredths.Comparable where
  same_self x _ := by simp [hundredths]
  zero_inUnit := rfl
  larger_inUnit x y hx hy := by
    simp only [hundredths, decide_eq_true_eq] at hx hy ⊢
    omega

namespace Sample

def tea (id content : String) : Memory ℕ :=
  ⟨id, "ada", "Ada", .fact, content, 50, 0, none, .shared, none, none, none⟩

def facts : List (Memory ℕ) := [tea "m1" "likes tea", tea "m2" "likes green tea"]

def groupTag : String := "cg:0123456789abcdef0123456789abcdef"

def consolidation : PreparedMemoryConsolidation hundredths :=
  ⟨⟨facts, facts.map (archived groupTag), summaryOf hundredths (tea "m1" "likes tea") facts "likes teas" groupTag "s" 1⟩,
    facts, "likes teas", groupTag, "s", 1, prepareImages_eq_ok.mpr
      ⟨by decide +kernel, tea "m1" "likes tea", [tea "m2" "likes green tea"], rfl, by decide +kernel, rfl⟩⟩

def loaded : List (Op hundredths) := [.replaceSnapshot (fun _ => 0) ⟨facts, [], [], [], []⟩]

end Sample

theorem consolidation_is_reversible_tea :
    (run (step hundredths) (Process.new ⟨0, 0, 0, 0⟩) Sample.loaded).manager.factConsolidationState hundredths
      Sample.consolidation = .before ∧
    Reversible (run (step hundredths) (Process.new ⟨0, 0, 0, 0⟩) Sample.loaded).manager Sample.consolidation :=
  ⟨by decide +kernel,
    (consolidation_is_reversible hundredths hundredths_comparable ⟨0, 0, 0, 0⟩ Sample.loaded Sample.consolidation).1⟩

end AnimaCore.AnimaMemory
