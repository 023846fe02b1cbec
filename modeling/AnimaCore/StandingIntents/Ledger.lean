import AnimaCore.StandingIntents.Steps

/-!
# AnimaCore.StandingIntents.Ledger — what a registry keeps over any calls

* `Ledger`: the invariant.  A change that is not undone belongs to a registered intention whose revision is at least
  the one it wrote, and no two such changes wrote the same revision; so an image that is current again is one nobody
  has touched, and at most one change of each intention can be undone.
* `LedgerLaw`: what follows for the registry after any calls and for the next one.
-/

namespace AnimaCore.StandingIntents

open Lib

variable {unicode : UnicodeTables} {s s' : StandingIntentRegistry} {c : IntentCall} {reply : IntentReply}

/-! ## The invariant -/

/-- What the two images of a change have in common. -/
structure ImagesKept (c : IntentChange) : Prop where
  after_valid : RecordValid c.after
  before_valid : ∀ b, c.before = some b → RecordValid b
  same_id : ∀ b, c.before = some b → b.id = c.after.id
  same_agent : ∀ b, c.before = some b → b.agentId = c.after.agentId
  same_fires : ∀ b, c.before = some b → b.fires = c.after.fires
  later : ∀ b, c.before = some b → b.updatedAtMs ≤ c.after.updatedAtMs
  first : c.before = none → c.after.revision = 1

/-- Two admissions of one agent have different runs and different retry keys. -/
def Apart (a b : IntentAdmission) : Prop :=
  a.agentId = b.agentId → a.runId ≠ b.runId ∧ ∀ k, a.retryKey = some k → b.retryKey ≠ some k

structure Ledger (s : StandingIntentRegistry) : Prop where
  intents_le : s.intents.size ≤ maxIntents
  changes_le : s.changes.size ≤ maxChanges
  admissions_le : s.admissions.length ≤ maxAdmissions
  keyed : Keyed s
  valid : ∀ (id : String) r, s.intents[id]? = some r → RecordValid r
  change_key : ∀ (id : String) c, s.changes[id]? = some c → c.id = id ∧ boundedId id = true
  images : ∀ (id : String) c, s.changes[id]? = some c → ImagesKept c
  admitted : ∀ a ∈ s.admissions, StandingIntentRegistry.admissionValid a = true
  apart : s.admissions.Pairwise Apart
  /-- Every fire stands on an admission of its run. -/
  fire_admitted : ∀ (id : String) r, s.intents[id]? = some r →
    ∀ f ∈ r.fires, ∃ a ∈ s.admissions, a.agentId = r.agentId ∧ a.runId = f.runId
  /-- Revisions only grow: an open change wrote a revision that its intention has reached. -/
  reached : ∀ (id : String) c, s.changes[id]? = some c → c.undone = false →
    ∃ r, s.intents[c.after.id]? = some r ∧ c.after.revision ≤ r.revision
  distinct : ∀ (id : String) c (id' : String) c', s.changes[id]? = some c → s.changes[id']? = some c' →
    c.undone = false → c'.undone = false → c.after.id = c'.after.id → c.after.revision = c'.after.revision → id = id'

theorem ledger_empty : Ledger .empty where
  intents_le := by simp [StandingIntentRegistry.empty]
  changes_le := by simp [StandingIntentRegistry.empty]
  admissions_le := Nat.zero_le _
  keyed id r h := by simp [StandingIntentRegistry.empty] at h
  valid id r h := by simp [StandingIntentRegistry.empty] at h
  change_key id c h := by simp [StandingIntentRegistry.empty] at h
  images id c h := by simp [StandingIntentRegistry.empty] at h
  admitted a h := by simp [StandingIntentRegistry.empty] at h
  apart := .nil
  fire_admitted id r h := by simp [StandingIntentRegistry.empty] at h
  reached id c h := by simp [StandingIntentRegistry.empty] at h
  distinct id c id' c' h := by simp [StandingIntentRegistry.empty] at h

theorem reclaim_getElem? {id : String} {c : IntentChange} (h : s.reclaim.changes[id]? = some c) :
    s.changes[id]? = some c ∧ s.undoable c = true := by
  simp only [StandingIntentRegistry.reclaim, Std.ExtTreeMap.getElem?_filter'] at h
  rwa [Option.filter_eq_some_iff] at h

theorem undoable_iff {c : IntentChange} :
    s.undoable c = true ↔ c.undone = false ∧ s.intents[c.after.id]? = some c.after := by
  simp [StandingIntentRegistry.undoable]

theorem Ledger.reclaim_lt (l : Ledger s) : s.reclaim.changes.size < maxChanges := by
  have hle : s.reclaim.changes.size ≤ s.intents.size := by
    refine Table.size_le_of_injective (fun c => c.after.id) ?_ ?_
    · intro id c hc
      obtain ⟨_, hundo⟩ := reclaim_getElem? hc
      exact Table.mem_of_getElem? (undoable_iff.mp hundo).2
    · intro id c id' c' hc hc' heq
      obtain ⟨hget, hundo⟩ := reclaim_getElem? hc
      obtain ⟨hget', hundo'⟩ := reclaim_getElem? hc'
      obtain ⟨hopen, hcurrent⟩ := undoable_iff.mp hundo
      obtain ⟨hopen', hcurrent'⟩ := undoable_iff.mp hundo'
      have hsame : c.after = c'.after := by
        have heq' : c.after.id = c'.after.id := heq
        rw [heq', hcurrent'] at hcurrent
        exact (Option.some.inj hcurrent).symm
      exact l.distinct id c id' c' hget hget' hopen hopen' heq (by rw [hsame])
  have := l.intents_le
  have h64 : maxIntents = 64 := rfl
  have h256 : maxChanges = 256 := rfl
  omega

/-! ### A change -/

theorem kept_getElem? {kept : Table String IntentChange} (hkept : kept = s.changes ∨ kept = s.reclaim.changes)
    {id : String} {c : IntentChange} (h : kept[id]? = some c) : s.changes[id]? = some c := by
  rcases hkept with rfl | rfl
  · exact h
  · exact (reclaim_getElem? h).1

theorem Ledger.older (l : Ledger s) {before : Option StandingIntent} {after : StandingIntent}
    (hfollows : Follows s after before) {id : String} {c : IntentChange} (hget : s.changes[id]? = some c)
    (hopen : c.undone = false) (hid : c.after.id = after.id) : c.after.revision < after.revision := by
  obtain ⟨r, hr, hle⟩ := l.reached id c hget hopen
  rw [hid] at hr
  cases hfollows with
  | created _ hnew =>
    rw [hnew] at hr
    cases hr
  | edited before hbefore hid' _ _ hrevision =>
    rw [hid', hbefore] at hr
    cases hr
    omega

theorem Ledger.images_changed (l : Ledger s) (fresh : Uuid) {before : Option StandingIntent} {after : StandingIntent}
    (hvalid : RecordValid after) (hfollows : Follows s after before) : ImagesKept (changeOf fresh before after) := by
  cases hfollows with
  | created _ _ hrevision => exact ⟨hvalid, nofun, nofun, nofun, nofun, nofun, fun _ => hrevision⟩
  | edited before hbefore hid hagent hfires _ hupdated =>
    refine ⟨hvalid, ?_, ?_, ?_, ?_, ?_, nofun⟩ <;> rintro b ⟨⟩
    · exact l.valid _ _ hbefore
    · exact hid.symm
    · exact hagent.symm
    · exact hfires.symm
    · exact hupdated

theorem Ledger.size_changed (l : Ledger s) {before : Option StandingIntent} {after : StandingIntent}
    (hfollows : Follows s after before) : (s.intents.insert after.id after).size ≤ maxIntents := by
  cases hfollows with
  | created hroom =>
    have hle := Std.ExtTreeMap.size_insert_le (t := s.intents) (k := after.id) (v := after)
    omega
  | edited before hbefore hid =>
    rw [hid, Table.size_insert_of_getElem? hbefore]
    exact l.intents_le

theorem Ledger.changed (l : Ledger s) (fresh : Uuid) {before : Option StandingIntent} {after : StandingIntent}
    {kept : Table String IntentChange} (hvalid : RecordValid after) (hfollows : Follows s after before)
    (hkept : kept = s.changes ∨ kept = s.reclaim.changes) (hroom : kept.size < maxChanges) :
    Ledger (s.changed kept (changeOf fresh before after)) := by
  have hintents : ∀ a : String, (s.changed kept (changeOf fresh before after)).intents[a]? =
      if after.id = a then some after else s.intents[a]? := fun a => Table.getElem?_insert_eq _ _ _
  have hchanges : ∀ a : String, (s.changed kept (changeOf fresh before after)).changes[a]? =
      if uuidText fresh = a then some (changeOf fresh before after) else kept[a]? :=
    fun a => Table.getElem?_insert_eq _ _ _
  have hold := fun {a : String} {c : IntentChange} (h : kept[a]? = some c) => kept_getElem? hkept h
  refine ⟨l.size_changed hfollows, ?_, l.admissions_le, ?_, ?_, ?_, ?_, l.admitted, l.apart, ?_, ?_, ?_⟩
  · have hle := Std.ExtTreeMap.size_insert_le (t := kept) (k := uuidText fresh) (v := changeOf fresh before after)
    show (kept.insert (uuidText fresh) (changeOf fresh before after)).size ≤ maxChanges
    omega
  · intro a r hr
    rw [hintents] at hr
    split_ifs at hr with ha
    · cases hr
      exact ha
    · exact l.keyed a r hr
  · intro a r hr
    rw [hintents] at hr
    split_ifs at hr with ha
    · cases hr
      exact hvalid
    · exact l.valid a r hr
  · intro a c hc
    rw [hchanges] at hc
    split_ifs at hc with ha
    · cases hc
      exact ⟨ha, ha ▸ boundedId_uuidText fresh⟩
    · exact l.change_key a c (hold hc)
  · intro a c hc
    rw [hchanges] at hc
    split_ifs at hc with ha
    · cases hc
      exact l.images_changed fresh hvalid hfollows
    · exact l.images a c (hold hc)
  · intro a r hr f hf
    rw [hintents] at hr
    split_ifs at hr with ha
    · cases hr
      cases hfollows with
      | created _ _ _ hfires =>
        rw [hfires] at hf
        cases hf
      | edited before hbefore _ hagent hfires =>
        rw [hfires] at hf
        rw [hagent]
        exact l.fire_admitted _ _ hbefore f hf
    · exact l.fire_admitted a r hr f hf
  · intro a c hc hopen
    rw [hchanges] at hc
    rw [hintents]
    split_ifs at hc with ha
    · cases hc
      exact ⟨after, if_pos rfl, le_rfl⟩
    · by_cases hid : after.id = c.after.id
      · rw [if_pos hid]
        exact ⟨after, rfl, (l.older hfollows (hold hc) hopen hid.symm).le⟩
      · rw [if_neg hid]
        exact l.reached a c (hold hc) hopen
  · intro a c a' c' hc hc' hopen hopen' hid hrevision
    rw [hchanges] at hc hc'
    split_ifs at hc hc' with ha ha'
    · exact ha.symm.trans ha'
    · cases hc
      have hlt := l.older hfollows (hold hc') hopen' hid.symm
      exact absurd hrevision.symm hlt.ne
    · cases hc'
      have hlt := l.older hfollows (hold hc) hopen hid
      exact absurd hrevision hlt.ne
    · exact l.distinct a c a' c' (hold hc) (hold hc') hopen hopen' hid hrevision

/-! ### An undo -/

theorem undone_getElem? {id : String} {intents : Table String StandingIntent} {a : String} {c : IntentChange}
    (h : (s.undone id intents).changes[a]? = some c) :
    ∃ c₀, s.changes[a]? = some c₀ ∧ (c = c₀ ∧ a ≠ id ∨ c = { c₀ with undone := true }) := by
  simp only [StandingIntentRegistry.undone, Table.getElem?_modify_eq] at h
  by_cases ha : id = a
  · rw [if_pos ha, Option.map_eq_some_iff] at h
    obtain ⟨c₀, hc₀, rfl⟩ := h
    exact ⟨c₀, ha ▸ hc₀, .inr rfl⟩
  · rw [if_neg ha] at h
    exact ⟨c, h, .inl ⟨rfl, Ne.symm ha⟩⟩

theorem open_undone {id : String} {intents : Table String StandingIntent} {a : String} {c : IntentChange}
    (h : (s.undone id intents).changes[a]? = some c) (hopen : c.undone = false) : s.changes[a]? = some c ∧ a ≠ id := by
  obtain ⟨c₀, hget, ⟨rfl, hne⟩ | rfl⟩ := undone_getElem? h
  · exact ⟨hget, hne⟩
  · cases hopen

theorem Ledger.undone (l : Ledger s) {id : String} {intents : Table String StandingIntent}
    (hle : intents.size ≤ maxIntents)
    (hfrom : ∀ (a : String) r, intents[a]? = some r → r.id = a ∧ RecordValid r ∧
      ∃ r₀, s.intents[a]? = some r₀ ∧ r.agentId = r₀.agentId ∧ r.fires = r₀.fires)
    (hreached : ∀ (a : String) c, s.changes[a]? = some c → c.undone = false → a ≠ id →
      ∃ r, intents[c.after.id]? = some r ∧ c.after.revision ≤ r.revision) :
    Ledger (s.undone id intents) := by
  have hsize : (s.undone id intents).changes.size = s.changes.size := by
    refine Table.size_eq_of_mem_iff fun a => ?_
    exact Std.ExtTreeMap.mem_modify
  refine ⟨hle, hsize ▸ l.changes_le, l.admissions_le, ?_, ?_, ?_, ?_, l.admitted, l.apart, ?_, ?_, ?_⟩
  · intro a r hr
    exact (hfrom a r hr).1
  · intro a r hr
    exact (hfrom a r hr).2.1
  · intro a c hc
    obtain ⟨c₀, hget, ⟨rfl, _⟩ | rfl⟩ := undone_getElem? hc
    · exact l.change_key a _ hget
    · exact l.change_key a c₀ hget
  · intro a c hc
    obtain ⟨c₀, hget, ⟨rfl, _⟩ | rfl⟩ := undone_getElem? hc
    · exact l.images a _ hget
    · have i := l.images a c₀ hget
      exact ⟨i.after_valid, i.before_valid, i.same_id, i.same_agent, i.same_fires, i.later, i.first⟩
  · intro a r hr f hf
    obtain ⟨_, _, r₀, hr₀, hagent, hfires⟩ := hfrom a r hr
    rw [hfires] at hf
    rw [hagent]
    exact l.fire_admitted a r₀ hr₀ f hf
  · intro a c hc hopen
    obtain ⟨hget, hne⟩ := open_undone hc hopen
    exact hreached a c hget hopen hne
  · intro a c a' c' hc hc' hopen hopen'
    exact l.distinct a c a' c' (open_undone hc hopen).1 (open_undone hc' hopen').1 hopen hopen'

theorem Ledger.restored (l : Ledger s) {id : String} {now : ℕ} {change : IntentChange} {before restored : StandingIntent}
    (hget : s.changes[id]? = some change) (hbefore : change.before = some before)
    (hcurrent : s.intents[change.after.id]? = some change.after)
    (heq : restored = { before with revision := change.after.revision + 1
                                    updatedAtMs := max now change.after.updatedAtMs }) :
    Ledger (s.undone id (s.intents.insert restored.id restored)) := by
  have i := l.images id change hget
  have b := i.before_valid before hbefore
  have hid : restored.id = change.after.id := by
    rw [heq]
    exact i.same_id before hbefore
  have hfires : restored.fires = change.after.fires := by
    rw [heq]
    exact i.same_fires before hbefore
  have hagent : restored.agentId = change.after.agentId := by
    rw [heq]
    exact i.same_agent before hbefore
  have hvalid : RecordValid restored := by
    have hlater : before.updatedAtMs ≤ max now change.after.updatedAtMs :=
      (i.later before hbefore).trans (Nat.le_max_right _ _)
    rw [heq]
    exact ⟨b.id_bounded, b.agent_bounded, b.spec_valid, Nat.succ_pos _, b.created_le.trans hlater, b.created_lt,
      b.expires_le.trans (saturatingAdd_mono hlater _), b.fires_le, b.fire_inside, b.ordered, b.runs_nodup⟩
  have hrevision : restored.revision = change.after.revision + 1 := by rw [heq]
  rw [hid]
  refine l.undone ?_ ?_ ?_
  · rw [Table.size_insert_of_getElem? hcurrent]
    exact l.intents_le
  · intro a r hr
    rw [Table.getElem?_insert_eq] at hr
    split_ifs at hr with ha
    · cases hr
      subst ha
      exact ⟨hid, hvalid, change.after, hcurrent, hagent, hfires⟩
    · exact ⟨l.keyed a r hr, l.valid a r hr, r, hr, rfl, rfl⟩
  · intro a c hc hopen _
    obtain ⟨r, hr, hle⟩ := l.reached a c hc hopen
    rw [Table.getElem?_insert_eq]
    by_cases ha : change.after.id = c.after.id
    · rw [if_pos ha]
      rw [← ha, hcurrent] at hr
      cases hr
      exact ⟨restored, rfl, by omega⟩
    · rw [if_neg ha]
      exact ⟨r, hr, hle⟩

theorem Ledger.removed (l : Ledger s) {id : String} {change : IntentChange} (hget : s.changes[id]? = some change)
    (hopen : change.undone = false) (hbefore : change.before = none)
    (hcurrent : s.intents[change.after.id]? = some change.after) :
    Ledger (s.undone id (s.intents.erase change.after.id)) := by
  refine l.undone ((Std.ExtTreeMap.size_erase_le (t := s.intents)).trans l.intents_le) ?_ ?_
  · intro a r hr
    rw [Table.getElem?_erase_eq] at hr
    split_ifs at hr with ha
    exact ⟨l.keyed a r hr, l.valid a r hr, r, hr, rfl, rfl⟩
  · intro a c hc hopen' hne
    obtain ⟨r, hr, hle⟩ := l.reached a c hc hopen'
    rw [Table.getElem?_erase_eq]
    by_cases ha : change.after.id = c.after.id
    · -- an open change of the same intention wrote the first revision too, so it is this one
      rw [← ha, hcurrent] at hr
      cases hr
      have hfirst := (l.images id change hget).first hbefore
      have hpos := (l.images a c hc).after_valid.revision_pos
      have hsame := l.distinct a c id change hc hget hopen' hopen ha.symm (by omega)
      exact absurd hsame hne
    · rw [if_neg ha]
      exact ⟨r, hr, hle⟩

/-! ### A turn -/

/-- What the filter of `admit` has checked. -/
structure FiresOn (r : StandingIntent) (turn : OwnerTurn) : Prop where
  agent_eq : r.agentId = turn.agentId
  created_le : r.createdAtMs ≤ turn.nowMs
  now_lt : turn.nowMs < r.spec.expiresAtMs
  fires_lt : r.fires.length < r.spec.maxFires
  cooled : ∀ f, r.fires.getLast? = some f → saturatingAdd f.atMs r.spec.cooldownMs ≤ turn.nowMs

theorem firesOn_of {r : StandingIntent} {turn : OwnerTurn} (h : r.firesOn unicode turn = true) : FiresOn r turn := by
  simp only [StandingIntent.firesOn, Bool.and_eq_true, beq_iff_eq, decide_eq_true_eq] at h
  obtain ⟨⟨⟨⟨⟨⟨⟨⟨hagent, _⟩, hcreated⟩, hnow⟩, hfires⟩, hcooled⟩, _⟩, _⟩, _⟩ := h
  refine ⟨hagent, hcreated, hnow, hfires, ?_⟩
  intro f hf
  rw [hf] at hcooled
  simpa using hcooled

theorem FiresOn.gap {r : StandingIntent} {turn : OwnerTurn} (hr : RecordValid r) (h : FiresOn r turn) {f : IntentFire}
    (hf : r.fires.getLast? = some f) : f.atMs + r.spec.cooldownMs ≤ turn.nowMs := by
  have hnow : turn.nowMs < u64Max := h.now_lt.trans_le (hr.expires_le.trans (saturatingAdd_le_max _ _))
  exact add_le_of_saturatingAdd_le (h.cooled f hf) hnow

theorem FiresOn.fire_valid {r : StandingIntent} {turn : OwnerTurn} (hr : RecordValid r) (h : FiresOn r turn)
    (hrun : boundedId turn.runId = true) (hnew : turn.runId ∉ r.fires.map (·.runId)) : RecordValid (r.fire turn) := by
  have hupdated : r.updatedAtMs ≤ max turn.nowMs r.updatedAtMs := Nat.le_max_right _ _
  refine ⟨hr.id_bounded, hr.agent_bounded, hr.spec_valid, Nat.succ_pos _, hr.created_le.trans hupdated, hr.created_lt,
    hr.expires_le.trans (saturatingAdd_mono hupdated _), ?_, ?_, ?_, ?_⟩
  · show (r.fires ++ [_]).length ≤ r.spec.maxFires
    rw [List.length_append, List.length_singleton]
    exact h.fires_lt
  · intro f hf
    rcases List.mem_append.mp hf with hf | hf
    · exact hr.fire_inside f hf
    · rw [List.mem_singleton] at hf
      subst hf
      exact ⟨hrun, h.created_le, h.now_lt⟩
  · show ((r.fires ++ [_]).map IntentFire.atMs).IsChain (· ≤ ·)
    rw [List.map_append, List.isChain_append]
    refine ⟨hr.ordered, by simp, ?_⟩
    intro x hx y hy
    rw [List.getLast?_map, Option.mem_def, Option.map_eq_some_iff] at hx
    obtain ⟨f, hf, rfl⟩ := hx
    simp only [List.map_cons, List.map_nil, List.head?_cons, Option.mem_def, Option.some.injEq] at hy
    subst hy
    have := h.gap hr hf
    show f.atMs ≤ turn.nowMs
    omega
  · show ((r.fires ++ [_]).map IntentFire.runId).Nodup
    rw [List.map_append, List.map_singleton]
    refine hr.runs_nodup.append (List.nodup_singleton _) ?_
    rw [List.disjoint_singleton]
    exact hnew

theorem apart_of_admittedBefore {turn : OwnerTurn} (hnew : s.admittedBefore turn = false) (ids : List String)
    {a : IntentAdmission} (ha : a ∈ s.admissions) : Apart a (admissionOf turn ids) := by
  intro hagent
  have hnot := List.any_eq_false.mp hnew a ha
  simp only [Bool.and_eq_true, Bool.or_eq_true, beq_iff_eq, not_and, not_or] at hnot
  obtain ⟨hrun, hkey⟩ := hnot hagent
  refine ⟨hrun, ?_⟩
  intro k hk hk'
  have hk'' : turn.retryKey = some k := hk'
  exact hkey (by rw [hk'']; rfl) (hk.trans hk''.symm)

theorem Ledger.fired (l : Ledger s) {turn : OwnerTurn} {ids : List String} {intents : Table String StandingIntent}
    (hagent : boundedId turn.agentId = true) (hrun : boundedId turn.runId = true)
    (hkey : turn.retryKey.all boundedId = true) (hnew : s.admittedBefore turn = false)
    (hroom : s.admissions.length < maxAdmissions) (hne : ids ≠ []) (hlen : ids.length ≤ 3) (hnodup : ids.Nodup)
    (hfires : ∀ id ∈ ids, ∃ r, s.intents[id]? = some r ∧ FiresOn r turn)
    (hintents : ∀ id : String, intents[id]? =
      if id ∈ ids then s.intents[id]?.map fun r => r.fire turn else s.intents[id]?) :
    Ledger { s with intents, admissions := s.admissions ++ [admissionOf turn ids] } := by
  have hfrom : ∀ (id : String) r, intents[id]? = some r → s.intents[id]? = some r ∨
      ∃ r₀, s.intents[id]? = some r₀ ∧ FiresOn r₀ turn ∧ r = r₀.fire turn := by
    intro id r hr
    rw [hintents] at hr
    split_ifs at hr with hid
    · obtain ⟨r₀, hr₀, hf⟩ := hfires id hid
      rw [hr₀] at hr
      cases hr
      exact .inr ⟨r₀, hr₀, hf, rfl⟩
    · exact .inl hr
  have hsize : intents.size = s.intents.size := by
    refine Table.size_eq_of_mem_iff fun id => ?_
    rw [Table.mem_iff_getElem?_isSome, Table.mem_iff_getElem?_isSome, hintents]
    split_ifs
    · rw [Option.isSome_map]
    · rfl
  refine ⟨hsize ▸ l.intents_le, l.changes_le, ?_, ?_, ?_, l.change_key, l.images, ?_, ?_, ?_, ?_, l.distinct⟩
  · show (s.admissions ++ [_]).length ≤ maxAdmissions
    rw [List.length_append, List.length_singleton]
    exact hroom
  · intro id r hr
    rcases hfrom id r hr with hr | ⟨r₀, hr₀, _, rfl⟩
    · exact l.keyed id r hr
    · exact l.keyed id r₀ hr₀
  · intro id r hr
    rcases hfrom id r hr with hr | ⟨r₀, hr₀, hf, rfl⟩
    · exact l.valid id r hr
    · refine hf.fire_valid (l.valid id r₀ hr₀) hrun ?_
      -- a fire of this run would stand on an admission of it
      intro hmem
      obtain ⟨f, hfmem, hfrun⟩ := List.mem_map.mp hmem
      obtain ⟨a, ha, haagent, harun⟩ := l.fire_admitted id r₀ hr₀ f hfmem
      have hapart := apart_of_admittedBefore hnew ids ha (haagent.trans hf.agent_eq)
      exact hapart.1 (harun.trans hfrun)
  · intro a ha
    rcases List.mem_append.mp ha with ha | ha
    · exact l.admitted a ha
    · rw [List.mem_singleton] at ha
      subst ha
      have hids : ids.all boundedId = true := by
        rw [List.all_eq_true]
        intro id hid
        obtain ⟨r, hr, _⟩ := hfires id hid
        rw [← l.keyed id r hr]
        exact (l.valid id r hr).id_bounded
      simp [StandingIntentRegistry.admissionValid, admissionOf, hagent, hrun, hkey, hne, hlen, hids, hnodup]
  · rw [List.pairwise_append]
    refine ⟨l.apart, List.pairwise_singleton _ _, ?_⟩
    intro a ha b hb
    rw [List.mem_singleton] at hb
    subst hb
    exact apart_of_admittedBefore hnew ids ha
  · intro id r hr f hf
    have hkeep : ∀ r₀, s.intents[id]? = some r₀ → f ∈ r₀.fires →
        ∃ a ∈ s.admissions ++ [admissionOf turn ids], a.agentId = r₀.agentId ∧ a.runId = f.runId := by
      intro r₀ hr₀ hf
      obtain ⟨a, ha, h⟩ := l.fire_admitted id r₀ hr₀ f hf
      exact ⟨a, List.mem_append_left _ ha, h⟩
    rcases hfrom id r hr with hr | ⟨r₀, hr₀, hon, rfl⟩
    · exact hkeep r hr hf
    · rcases List.mem_append.mp hf with hf | hf
      · exact hkeep r₀ hr₀ hf
      · rw [List.mem_singleton] at hf
        subst hf
        exact ⟨_, List.mem_append_right _ (List.mem_singleton_self _), hon.agent_eq.symm, rfl⟩
  · intro id c hc hopen
    obtain ⟨r, hr, hle⟩ := l.reached id c hc hopen
    show ∃ r, intents[c.after.id]? = some r ∧ c.after.revision ≤ r.revision
    rw [hintents, hr]
    split_ifs
    · exact ⟨r.fire turn, rfl, hle.trans (Nat.le_succ _)⟩
    · exact ⟨r, rfl, hle⟩

/-! ### Any call -/

theorem Ledger.step (l : Ledger s) (hstep : CallStep unicode s c reply s') : Ledger s' := by
  cases hstep with
  | failed => exact l
  | full c hfull => exact absurd hfull (Nat.not_le.mpr l.reclaim_lt)
  | changed c fresh before after kept hvalid hfollows hkept hroom => exact l.changed fresh hvalid hfollows hkept hroom
  | restored id now change before hget hopen hbefore hcurrent restored heq =>
    exact l.restored hget hbefore hcurrent heq
  | removed id now change hget hopen hbefore hcurrent => exact l.removed hget hopen hbefore hcurrent
  | quiet => exact l
  | fired turn ids found intents hagent hrun hkey hnew hroom hne hlen hnodup hfires hfound hintents =>
    refine l.fired hagent hrun hkey hnew hroom hne hlen hnodup ?_ hintents
    intro id hid
    obtain ⟨r, hr, hf⟩ := hfires id hid
    exact ⟨r, hr, firesOn_of hf⟩

theorem Ledger.call (l : Ledger s) (c : IntentCall) : Ledger (s.call unicode c).2 := l.step (call_step unicode l.keyed c)

/-! ## Validation -/

theorem admissionsValid_of {l : List IntentAdmission}
    (hvalid : ∀ a ∈ l, StandingIntentRegistry.admissionValid a = true) (hapart : l.Pairwise Apart)
    (runs keys : KeySet (String × String)) (hruns : ∀ a ∈ l, (a.agentId, a.runId) ∉ runs)
    (hkeys : ∀ a ∈ l, ∀ k, a.retryKey = some k → (a.agentId, k) ∉ keys) :
    StandingIntentRegistry.admissionsValid l runs keys = true := by
  induction l generalizing runs keys with
  | nil => rfl
  | cons a l ih =>
    obtain ⟨hfirst, hrest⟩ := List.pairwise_cons.mp hapart
    have hruns' : ∀ b ∈ l, (b.agentId, b.runId) ∉ runs.insert (a.agentId, a.runId) := by
      intro b hb hmem
      rcases KeySet.mem_insert_iff.mp hmem with heq | hmem
      · obtain ⟨hagent, hrun⟩ := Prod.mk.inj heq
        exact (hfirst b hb hagent).1 hrun
      · exact hruns b (List.mem_cons_of_mem _ hb) hmem
    have hvalid' := fun b hb => hvalid b (List.mem_cons_of_mem a hb)
    have hkeys' := fun b hb => hkeys b (List.mem_cons_of_mem a hb)
    have hnew := hruns a List.mem_cons_self
    rw [← Std.ExtTreeSet.contains_iff_mem, Bool.not_eq_true] at hnew
    simp only [StandingIntentRegistry.admissionsValid, hvalid a List.mem_cons_self, hnew, Bool.not_false, Bool.true_and]
    cases hk : a.retryKey with
    | none => exact ih hvalid' hrest _ _ hruns' hkeys'
    | some k =>
      have hnewKey := hkeys a List.mem_cons_self k hk
      rw [← Std.ExtTreeSet.contains_iff_mem, Bool.not_eq_true] at hnewKey
      simp only [hnewKey, Bool.not_false, Bool.true_and]
      refine ih hvalid' hrest _ _ hruns' ?_
      intro b hb k' hk' hmem
      rcases KeySet.mem_insert_iff.mp hmem with heq | hmem
      · obtain ⟨hagent, rfl⟩ := Prod.mk.inj heq
        exact (hfirst b hb hagent).2 k hk hk'
      · exact hkeys' b hb k' hk' hmem

theorem Ledger.validate (l : Ledger s) : s.validate = .ok () := by
  simp only [StandingIntentRegistry.validate, bind_eq_ok, ensure_eq_ok]
  refine ⟨(), ⟨l.intents_le, l.changes_le, l.admissions_le⟩, (), ?_, (), ?_, ?_⟩
  · rw [List.all_eq_true]
    rintro ⟨id, r⟩ hentry
    have hr := Table.mem_toList.mp hentry
    rw [Bool.and_eq_true, beq_iff_eq]
    exact ⟨(l.keyed id r hr).symm, recordValid_iff.mpr (l.valid id r hr)⟩
  · rw [List.all_eq_true]
    rintro ⟨id, c⟩ hentry
    have hc := Table.mem_toList.mp hentry
    obtain ⟨hid, hbounded⟩ := l.change_key id c hc
    have i := l.images id c hc
    have hbefore : (c.before.all fun b => recordValid b && b.id == c.after.id && b.agentId == c.after.agentId) = true := by
      cases hb : c.before with
      | none => rfl
      | some b =>
        simp [recordValid_iff.mpr (i.before_valid b hb), i.same_id b hb, i.same_agent b hb]
    simp [StandingIntentRegistry.changeValid, hid, hbounded, recordValid_iff.mpr i.after_valid, hbefore]
  · exact admissionsValid_of l.admitted l.apart ∅ ∅ (by simp) (by simp)

/-! ## The law -/

/-- The turns of a history on which something fired. -/
def firedTurns (h : List (IntentCall × IntentReply)) : List OwnerTurn :=
  h.filterMap fun entry =>
    match entry with
    | (.turn turn, .matched (_ :: _)) => some turn
    | _ => none

/-- What a call may do to the fires of a registered intention: nothing, or one more at the end, inside the lifetime, not
beyond the bound and no sooner than the cooldown allows. -/
def FiresKept (r r' : StandingIntent) : Prop :=
  r'.fires = r.fires ∨ ∃ f, r'.fires = r.fires ++ [f] ∧ r'.spec = r.spec ∧ r'.createdAtMs = r.createdAtMs ∧
    r.createdAtMs ≤ f.atMs ∧ f.atMs < r.spec.expiresAtMs ∧ r.fires.length < r.spec.maxFires ∧
    ∀ last, r.fires.getLast? = some last → last.atMs + r.spec.cooldownMs ≤ f.atMs

def IntentCall.edits : IntentCall → Bool
  | .create .. | .update .. | .cancel .. => true
  | .undo .. | .turn _ => false

/-- What a registry owes to the calls made on it and to the next one. -/
structure LedgerLaw (unicode : UnicodeTables) (s : Logged) : Prop where
  valid : s.registry.validate = .ok ()
  /-- A call that fails changes neither the intentions nor the admissions nor what can be undone. -/
  failed_keeps : ∀ c e, (s.registry.call unicode c).1 = .failed e →
    (s.registry.call unicode c).2.intents = s.registry.intents ∧
    (s.registry.call unicode c).2.admissions = s.registry.admissions ∧
    ∀ (id : String) change, s.registry.undoable change = true →
      ((s.registry.call unicode c).2.changes[id]? = some change ↔ s.registry.changes[id]? = some change)
  fires_bounded : ∀ (id : String) r, s.registry.intents[id]? = some r → r.fires.length ≤ r.spec.maxFires ∧
    ∀ f ∈ r.fires, r.createdAtMs ≤ f.atMs ∧ f.atMs < r.spec.expiresAtMs
  fires_kept : ∀ c (id : String) r r', s.registry.intents[id]? = some r →
    (s.registry.call unicode c).2.intents[id]? = some r' → FiresKept r r'
  /-- One agent never fires twice on a run, nor on a retry key. -/
  fired_once : (firedTurns s.history).Pairwise fun t t' => t.agentId = t'.agentId →
    t.runId ≠ t'.runId ∧ ∀ k, t.retryKey = some k → t'.retryKey ≠ some k
  never_full : ∀ c, (s.registry.call unicode c).1 ≠ .failed .historyFull
  /-- What an edit answers does not depend on the changes kept. -/
  history_no_say : ∀ c, c.edits = true →
    (s.registry.call unicode c).1 = (StandingIntentRegistry.call unicode { s.registry with changes := ∅ } c).1
  /-- The fires of an intention that stays registered over any further calls. -/
  fires_grow : ∀ (more : List IntentCall) (id : String) r r', s.registry.intents[id]? = some r →
    (∀ l, l <+: more → id ∈ (run (log unicode) s l).registry.intents) →
    (run (log unicode) s more).registry.intents[id]? = some r' → r.fires <+: r'.fires

theorem Ledger.run (unicode : UnicodeTables) {s : Logged} (l : Ledger s.registry) (calls : List IntentCall) :
    Ledger (Lib.run (log unicode) s calls).registry := by
  refine run_induction (log unicode) s (P := fun _ s => Ledger s.registry) calls l ?_
  intro _ c l
  exact l.call c

theorem ledger_logged (unicode : UnicodeTables) (calls : List IntentCall) : Ledger (logged unicode calls).registry :=
  Ledger.run unicode (s := { registry := .empty, history := [] }) ledger_empty calls

theorem Ledger.failed_keeps (l : Ledger s) {e : IntentError} (hstep : CallStep unicode s c (.failed e) s') : s' = s := by
  cases hstep with
  | failed => rfl
  | full _ hfull => exact absurd hfull (Nat.not_le.mpr l.reclaim_lt)

theorem Ledger.fires_kept (l : Ledger s) (hstep : CallStep unicode s c reply s') {id : String} {r r' : StandingIntent}
    (hr : s.intents[id]? = some r) (hr' : s'.intents[id]? = some r') : FiresKept r r' := by
  have hsame : ∀ {r' : StandingIntent}, s.intents[id]? = some r' → FiresKept r r' := by
    intro r' hr'
    rw [hr] at hr'
    cases hr'
    exact .inl rfl
  cases hstep with
  | failed => exact hsame hr'
  | full _ hfull => exact absurd hfull (Nat.not_le.mpr l.reclaim_lt)
  | changed c fresh before after kept hvalid hfollows =>
    simp only [StandingIntentRegistry.changed, changeOf, Table.getElem?_insert_eq] at hr'
    split_ifs at hr' with hid
    · cases hr'
      subst hid
      cases hfollows with
      | created _ hnew =>
        rw [hnew] at hr
        cases hr
      | edited before hbefore hid _ hfires =>
        rw [hid, hbefore] at hr
        cases hr
        exact .inl hfires
    · exact hsame hr'
  | restored cid now change before hget _ hbefore hcurrent restored heq =>
    have i := l.images cid change hget
    simp only [StandingIntentRegistry.undone, Table.getElem?_insert_eq] at hr'
    split_ifs at hr' with hid
    · cases hr'
      have hid' : change.after.id = id := by
        rw [← hid, heq]
        exact (i.same_id before hbefore).symm
      rw [← hid', hcurrent] at hr
      cases hr
      left
      rw [heq]
      exact i.same_fires before hbefore
    · exact hsame hr'
  | removed cid now change =>
    simp only [StandingIntentRegistry.undone, Table.getElem?_erase_eq] at hr'
    split_ifs at hr' with hid
    exact hsame hr'
  | quiet => exact hsame hr'
  | fired turn ids found intents _ _ _ _ _ _ _ _ hfires _ hintents =>
    simp only [hintents] at hr'
    split_ifs at hr' with hid
    · obtain ⟨r₀, hr₀, hf⟩ := hfires id hid
      rw [hr] at hr₀ hr'
      cases hr₀
      cases hr'
      have hon := firesOn_of hf
      exact .inr ⟨_, rfl, rfl, rfl, hon.created_le, hon.now_lt, hon.fires_lt, fun last => hon.gap (l.valid id r hr)⟩
    · exact hsame hr'

theorem FiresKept.grows {r r' : StandingIntent} (h : FiresKept r r') : r.fires <+: r'.fires := by
  rcases h with heq | ⟨f, heq, _⟩
  · rw [heq]
  · rw [heq]
    exact List.prefix_append _ _

theorem Ledger.fires_grow {s : Logged} (l : Ledger s.registry) {id : String} {r : StandingIntent}
    (hr : s.registry.intents[id]? = some r) (more : List IntentCall)
    (hstays : ∀ l, l <+: more → id ∈ (Lib.run (log unicode) s l).registry.intents) {r' : StandingIntent}
    (hr' : (Lib.run (log unicode) s more).registry.intents[id]? = some r') : r.fires <+: r'.fires := by
  induction more using List.reverseRecOn generalizing r' with
  | nil =>
    rw [run_nil, hr] at hr'
    cases hr'
    exact List.prefix_rfl
  | append_singleton more c ih =>
    have hmem := hstays more (List.prefix_append _ _)
    obtain ⟨r₁, hr₁⟩ := Option.isSome_iff_exists.mp (Table.mem_iff_getElem?_isSome.mp hmem)
    have hbefore := ih (fun l hl => hstays l (hl.trans (List.prefix_append _ _))) hr₁
    rw [run_append] at hr'
    have l₁ := Ledger.run unicode l more
    exact hbefore.trans (l₁.fires_kept (call_step unicode l₁.keyed c) hr₁ hr').grows

/-! ### Edits and the history -/

/-- The answer to a change if there is room for it. -/
def commitAnswer (fresh : Uuid) (before : Option StandingIntent) (after : StandingIntent) :
    Except IntentError (StandingIntent × IntentChange) :=
  if recordValid after = false then .error .historyInvalid else .ok (after, changeOf fresh before after)

theorem commitChange_fst (hroom : s.reclaim.changes.size < maxChanges) (fresh : Uuid) (before : Option StandingIntent)
    (after : StandingIntent) : (s.commitChange fresh before after).1 = commitAnswer fresh before after := by
  unfold StandingIntentRegistry.commitChange commitAnswer
  by_cases hvalid : recordValid after = false
  · rw [if_pos hvalid, if_pos hvalid]
  rw [if_neg hvalid, if_neg hvalid]
  have hkept : ¬maxChanges ≤ (if maxChanges ≤ s.changes.size then s.reclaim else s).changes.size := by
    split_ifs with hmax
    · exact Nat.not_le.mpr hroom
    · exact hmax
  simp only [if_neg hkept]
  rfl

section Congr

variable {t : StandingIntentRegistry} (hintents : t.intents = s.intents) (hs : s.reclaim.changes.size < maxChanges)
  (ht : t.reclaim.changes.size < maxChanges)

include hintents hs ht

theorem create_fst_congr (fresh : Uuid) (id agent : String) (spec : IntentSpec) (now : ℕ) :
    (s.create fresh id agent spec now).1 = (t.create fresh id agent spec now).1 := by
  unfold StandingIntentRegistry.create
  rw [hintents]
  split_ifs
  · rfl
  · rw [commitChange_fst hs, commitChange_fst ht]

theorem update_fst_congr (fresh : Uuid) (id : String) (revision : ℕ) (spec : IntentSpec) (now : ℕ) :
    (s.update fresh id revision spec now).1 = (t.update fresh id revision spec now).1 := by
  have hcurrent : t.current id revision = s.current id revision := by
    unfold StandingIntentRegistry.current
    rw [hintents]
  unfold StandingIntentRegistry.update
  rw [hcurrent]
  cases s.current id revision with
  | none => rfl
  | some before =>
    simp only
    split_ifs
    · rfl
    · cases checkedAdd 64 before.revision 1 with
      | none => rfl
      | some next =>
        simp only
        rw [commitChange_fst hs, commitChange_fst ht]

theorem cancel_fst_congr (fresh : Uuid) (id : String) (revision now : ℕ) :
    (s.cancel fresh id revision now).1 = (t.cancel fresh id revision now).1 := by
  have hcurrent : t.current id revision = s.current id revision := by
    unfold StandingIntentRegistry.current
    rw [hintents]
  unfold StandingIntentRegistry.cancel
  rw [hcurrent]
  cases s.current id revision with
  | none => rfl
  | some before =>
    simp only
    cases checkedAdd 64 before.revision 1 with
    | none => rfl
    | some next =>
      simp only
      rw [commitChange_fst hs, commitChange_fst ht]

theorem edit_fst_congr (hedits : c.edits = true) : (s.call unicode c).1 = (t.call unicode c).1 := by
  cases c with
  | create fresh id agent spec now =>
    exact congrArg StandingIntentRegistry.changeReply (create_fst_congr hintents hs ht fresh id agent spec now)
  | update fresh id revision spec now =>
    exact congrArg StandingIntentRegistry.changeReply (update_fst_congr hintents hs ht fresh id revision spec now)
  | cancel fresh id revision now =>
    exact congrArg StandingIntentRegistry.changeReply (cancel_fst_congr hintents hs ht fresh id revision now)
  | undo id now => cases hedits
  | turn turn => cases hedits

end Congr

theorem Ledger.history_no_say (l : Ledger s) (hedits : c.edits = true) :
    (s.call unicode c).1 = (StandingIntentRegistry.call unicode { s with changes := ∅ } c).1 := by
  refine edit_fst_congr (t := { s with changes := ∅ }) rfl l.reclaim_lt ?_ hedits
  have hle := Std.ExtTreeMap.size_filter_le_size (t := (∅ : Table String IntentChange))
    (f := fun _ change => StandingIntentRegistry.undoable { s with changes := ∅ } change)
  exact hle.trans_lt (by decide)

/-! ### Admissions and the history -/

def OwnerTurn.identity (turn : OwnerTurn) : String × String × Option String := (turn.agentId, turn.runId, turn.retryKey)

def IntentAdmission.identity (a : IntentAdmission) : String × String × Option String := (a.agentId, a.runId, a.retryKey)

theorem firedTurns_append (h h' : List (IntentCall × IntentReply)) :
    firedTurns (h ++ h') = firedTurns h ++ firedTurns h' := List.filterMap_append

theorem Ledger.admissions_step (l : Ledger s) (hstep : CallStep unicode s c reply s') :
    s'.admissions.map IntentAdmission.identity =
      s.admissions.map IntentAdmission.identity ++ (firedTurns [(c, reply)]).map OwnerTurn.identity := by
  cases hstep with
  | failed | changed =>
    cases c <;> simp [firedTurns, StandingIntentRegistry.changed]
  | full _ hfull => exact absurd hfull (Nat.not_le.mpr l.reclaim_lt)
  | restored | removed | quiet => simp [firedTurns, StandingIntentRegistry.undone]
  | fired turn ids found intents _ _ _ _ _ hne _ _ _ hfound =>
    cases found with
    | nil => exact absurd hfound.symm hne
    | cons m found => simp [firedTurns, admissionOf, IntentAdmission.identity, OwnerTurn.identity]

theorem logged_admissions (unicode : UnicodeTables) (calls : List IntentCall) :
    (logged unicode calls).registry.admissions.map IntentAdmission.identity =
      (firedTurns (logged unicode calls).history).map OwnerTurn.identity := by
  refine run_induction (log unicode) _ (P := fun _ s => s.registry.admissions.map IntentAdmission.identity =
    (firedTurns s.history).map OwnerTurn.identity) calls rfl ?_
  intro calls c ih
  have l := ledger_logged unicode calls
  show _ = (firedTurns (_ ++ [_])).map OwnerTurn.identity
  rw [firedTurns_append, List.map_append, ← ih]
  exact l.admissions_step (call_step unicode l.keyed c)

/-- **Standing intentions keep their ledger.**  After any calls the registry is valid, and the next call keeps the
law: a failed call changes nothing that counts, the fires of an intention only grow, by one at a time and within its
bounds, no agent fires twice on a run or a retry key, and the history of changes never stands in the way of an edit. -/
theorem standing_intents_keep_their_ledger (unicode : UnicodeTables) (calls : List IntentCall) :
    LedgerLaw unicode (logged unicode calls) := by
  have l := ledger_logged unicode calls
  have hcall := fun c => call_step unicode l.keyed c
  refine ⟨l.validate, ?_, ?_, ?_, ?_, ?_, fun c => l.history_no_say, ?_⟩
  · intro c e hfailed
    have hstep := hcall c
    rw [hfailed] at hstep
    rw [l.failed_keeps hstep]
    exact ⟨rfl, rfl, fun _ _ _ => Iff.rfl⟩
  · intro id r hr
    have hvalid := l.valid id r hr
    exact ⟨hvalid.fires_le, fun f hf => (hvalid.fire_inside f hf).2⟩
  · intro c id r r' hr hr'
    exact l.fires_kept (hcall c) hr hr'
  · have hapart : ((logged unicode calls).registry.admissions.map IntentAdmission.identity).Pairwise fun x y =>
        x.1 = y.1 → x.2.1 ≠ y.2.1 ∧ ∀ k, x.2.2 = some k → y.2.2 ≠ some k := List.pairwise_map.mpr l.apart
    rw [logged_admissions] at hapart
    exact List.pairwise_map.mp hapart
  · intro c hfull
    have hstep := hcall c
    rw [hfull] at hstep
    generalize ((logged unicode calls).registry.call unicode c).2 = s' at hstep
    cases hstep with
    | failed _ _ hne => exact hne rfl
    | full _ hfull => exact absurd hfull (Nat.not_le.mpr l.reclaim_lt)
  · intro more id r r' hr hstays hr'
    exact l.fires_grow hr more hstays hr'

end AnimaCore.StandingIntents
