import AnimaCore.Runs.Validation

/-!
# AnimaCore.Runs.Retention — what pruning keeps

`RunLedger::prune_with_pins` removes finished runs.  The records that remain are accepted where all of them were
(`Accepted.prune`), and pruning again at the same time removes nothing more (`prune_prune`).

* `ParentsEnd`: the loop over the parents of a run, without its bound (`parentsEnd_iff`).
* `Closed`: a selection of records that still holds what the unsettled ones need.  A reordering is one, and so is what
  the retention leaves (`closed_prune`).
-/

namespace AnimaCore.Runs

open Lib

variable {host : Host} {records records' : List RunRecord} {r : RunRecord} {id : String}

/-! ## Looking records up -/

theorem byId_eq_some (hn : (records.map (·.id)).Nodup) : byId records id = some r ↔ r ∈ records ∧ r.id = id := by
  unfold byId
  constructor
  · intro h
    have hid := List.find?_some h
    exact ⟨List.mem_of_find?_eq_some h, by simpa using hid⟩
  · rintro ⟨hr, rfl⟩
    induction records with
    | nil => cases hr
    | cons first rest ih =>
      rw [List.map_cons, List.nodup_cons] at hn
      rcases List.mem_cons.mp hr with rfl | hrest
      · simp
      · have hne : first.id ≠ r.id := fun heq => hn.1 (heq ▸ List.mem_map_of_mem hrest)
        rw [List.find?_cons_of_neg (by simpa using hne)]
        exact ih hn.2 hrest

theorem byId_eq_none : byId records id = none ↔ ∀ r ∈ records, r.id ≠ id := by
  simp [byId]

theorem mem_of_byId (h : byId records id = some r) : r ∈ records ∧ r.id = id :=
  ⟨List.mem_of_find?_eq_some h, by simpa using List.find?_some h⟩

/-! ## The parents of a run -/

/-- Following `next` from a run ends before it comes back to one it has visited. -/
inductive ParentsEnd (next : String → Option String) : List String → Option String → Prop
  | done {visited : List String} : ParentsEnd next visited none
  | step {visited : List String} {id : String} (hnew : id ∉ visited) (hrest : ParentsEnd next (id :: visited) (next id)) :
      ParentsEnd next visited (some id)

def parentOf (records : List RunRecord) (id : String) : Option String := (byId records id).bind (·.parentRunId)

theorem ParentsEnd.of_rounds {rounds : ℕ} {visited : List String} {next : Option String}
    (h : parentsEnd records rounds visited next = true) : ParentsEnd (parentOf records) visited next := by
  induction rounds generalizing visited next with
  | zero =>
    cases next with
    | none => exact .done
    | some id => cases h
  | succ n ih =>
    cases next with
    | none => exact .done
    | some id =>
      simp only [parentsEnd, Bool.and_eq_true, Bool.not_eq_true', List.contains_eq_mem, decide_eq_false_iff_not] at h
      exact .step h.1 (ih h.2)

def unvisited (records : List RunRecord) (visited : List String) : ℕ :=
  records.countP fun r => !visited.contains r.id

theorem unvisited_lt {visited : List String} (hr : r ∈ records) (hnew : r.id ∉ visited) :
    unvisited records (r.id :: visited) < unvisited records visited := by
  have hle : ∀ l : List RunRecord, unvisited l (r.id :: visited) ≤ unvisited l visited := by
    intro l
    apply List.countP_mono_left
    intro x _ hx
    simp only [List.contains_eq_mem, List.mem_cons, Bool.not_eq_true', decide_eq_false_iff_not, not_or] at hx ⊢
    exact hx.2
  obtain ⟨before, after, rfl⟩ := List.append_of_mem hr
  have hb := hle before
  have ha := hle after
  unfold unvisited at *
  simp only [List.countP_append, List.countP_cons, List.contains_eq_mem, List.mem_cons, true_or, decide_true,
    Bool.not_true, Bool.false_eq_true, if_false, hnew, decide_false, Bool.not_false, if_true] at *
  omega

theorem ParentsEnd.rounds {rounds : ℕ} {visited : List String} {next : Option String}
    (h : ParentsEnd (parentOf records) visited next) (hrounds : unvisited records visited + 1 ≤ rounds) :
    parentsEnd records rounds visited next = true := by
  induction h generalizing rounds with
  | done => cases rounds <;> rfl
  | @step visited id hnew _ ih =>
    obtain ⟨n, rfl⟩ : ∃ n, rounds = n + 1 := ⟨rounds - 1, by omega⟩
    simp only [parentsEnd, Bool.and_eq_true, Bool.not_eq_true', List.contains_eq_mem, decide_eq_false_iff_not]
    refine ⟨hnew, ?_⟩
    cases hid : byId records id with
    | none => cases n <;> rfl
    | some r =>
      have hlt : unvisited records (id :: visited) < unvisited records visited := by
        obtain ⟨hr, rfl⟩ := mem_of_byId hid
        exact unvisited_lt hr hnew
      have hparent : parentOf records id = (some r).bind (·.parentRunId) := by rw [parentOf, hid]
      rw [← hparent]
      exact ih (by omega)

theorem parentsEnd_iff {visited : List String} {next : Option String} :
    parentsEnd records (records.length + 2) visited next = true ↔ ParentsEnd (parentOf records) visited next := by
  constructor
  · exact ParentsEnd.of_rounds
  · intro h
    have hle : unvisited records visited ≤ records.length := List.countP_le_length
    exact h.rounds (by omega)

theorem ParentsEnd.mono {next next' : String → Option String} {visited : List String} {start : Option String}
    (h : ParentsEnd next visited start) (hnext : ∀ id, next' id = next id ∨ next' id = none) :
    ParentsEnd next' visited start := by
  induction h with
  | done => exact .done
  | @step visited id hnew _ ih =>
    rcases hnext id with heq | heq
    · exact .step hnew (heq ▸ ih)
    · exact .step hnew (heq ▸ .done)

/-! ## Selections of records -/

/-- A selection of records that holds what the unsettled ones need. -/
structure Closed (records records' : List RunRecord) : Prop where
  sub : ∀ r ∈ records', r ∈ records
  ids : (records'.map (·.id)).Nodup
  parent_kept : ∀ r ∈ records', ∀ helper, r.asyncHelper = some helper →
    (helper.completion.isUnresolved || !r.status.isTerminal) = true →
      ∀ parent ∈ records, parent.id = helper.parentRunId → parent ∈ records'
  completion_kept : ∀ r ∈ records', ∀ helper, r.asyncHelper = some helper → helper.completion.isUnresolved = true →
    ∀ run ∈ records, some run.id = helper.completion.runId → run ∈ records'
  source_kept : ∀ r ∈ records', ¬(r.status.isTerminal = true ∧ r.mirrored = true) → ∀ source ∈ records,
    ∀ helper, source.asyncHelper = some helper → helper.completion.runId = some r.id → source ∈ records'

theorem Closed.lookup (c : Closed records records') (hn : (records.map (·.id)).Nodup) (id : String) :
    byId records' id = byId records id ∨ byId records' id = none := by
  cases h : byId records' id with
  | none => exact .inr rfl
  | some r =>
    obtain ⟨hr, hid⟩ := mem_of_byId h
    exact .inl ((byId_eq_some hn).mpr ⟨c.sub r hr, hid⟩).symm

theorem Closed.lookup_of_mem (c : Closed records records') (h : ∀ r, byId records id = some r → r ∈ records') :
    byId records' id = byId records id := by
  cases hid : byId records id with
  | none =>
    rw [byId_eq_none] at hid ⊢
    exact fun r hr => hid r (c.sub r hr)
  | some r => exact (byId_eq_some c.ids).mpr ⟨h r hid, (mem_of_byId hid).2⟩

theorem continuationValidate_mono (h : continuationValidate host records r = .ok ())
    (hid : ∀ id, byId records' id = byId records id ∨ byId records' id = none) :
    continuationValidate host records' r = .ok () := by
  unfold continuationValidate at *
  cases hturn : r.turn with
  | none => rfl
  | some turn =>
    cases hof : r.recoveryOf with
    | none => rfl
    | some parentId =>
      rw [hturn, hof] at h
      rcases hid parentId with heq | heq
      · simpa only [heq] using h
      · simp only [heq]
        rfl

theorem recoveryValidate_mono (h : recoveryValidate records r = .ok ())
    (hid : ∀ id, byId records' id = byId records id ∨ byId records' id = none) : recoveryValidate records' r = .ok () := by
  unfold recoveryValidate at *
  cases hrec : r.recovery with
  | none => rfl
  | some recovery =>
    simp only [hrec, ensure_eq_ok] at h ⊢
    obtain ⟨h1, h2, h3, h4, h5, hchild⟩ := h
    refine ⟨h1, h2, h3, h4, h5, ?_⟩
    rcases hid recovery.continuationRunId with heq | heq
    · rwa [heq]
    · rw [heq]
      simp

theorem RecordAccepted.mono (h : RecordAccepted host records r)
    (hid : ∀ id, byId records' id = byId records id ∨ byId records' id = none) : RecordAccepted host records' r :=
  { h with
    continuation_ok := continuationValidate_mono h.continuation_ok hid
    recovery_ok := recoveryValidate_mono h.recovery_ok hid }

theorem completionIdentity_mono {helper : AsyncHelper} (h : completionIdentity records r helper id = .ok ())
    (hid : byId records' id = byId records id ∨ byId records' id = none)
    (hunresolved : helper.completion.isUnresolved = true → byId records' id = byId records id) :
    completionIdentity records' r helper id = .ok () := by
  rcases hid with heq | hnone
  · unfold completionIdentity at *
    rwa [heq]
  · by_cases hu : helper.completion.isUnresolved = true
    · unfold completionIdentity at *
      rwa [hunresolved hu]
    · unfold completionIdentity
      rw [hnone]
      cases hc : helper.completion <;> simp_all [HelperCompletionState.isUnresolved] <;> rfl

theorem Closed.helper_ok (c : Closed records records') (a : Accepted host records) {helper : AsyncHelper}
    (hr : r ∈ records') (hhelper : r.asyncHelper = some helper) : HelperAccepted host records' r helper := by
  have h := a.helper_ok r (c.sub r hr) helper hhelper
  have hid := c.lookup a.ids
  refine { h with parent_ok := ?_, completion_ok := ?_, parents_end := ?_ }
  · -- the launch parent is there, or the helper no longer needs it
    have hparent := h.parent_ok
    unfold launchParentOk at *
    by_cases hu : (helper.completion.isUnresolved || !r.status.isTerminal) = true
    · rw [c.lookup_of_mem fun parent hp =>
        c.parent_kept r hr helper hhelper hu parent (mem_of_byId hp).1 (mem_of_byId hp).2]
      exact hparent
    · rcases hid helper.parentRunId with heq | heq
      · rwa [heq]
      · rw [heq]
        simpa using hu
  · intro cid hcid
    obtain ⟨h1, h2, h3, h4⟩ := h.completion_ok cid hcid
    refine ⟨h1, h2, h3, completionIdentity_mono h4 (hid cid) ?_⟩
    intro hu
    refine c.lookup_of_mem fun run hrun => ?_
    obtain ⟨hmem, rfl⟩ := mem_of_byId hrun
    exact c.completion_kept r hr helper hhelper hu run hmem hcid.symm
  · rw [parentsEnd_iff]
    refine (parentsEnd_iff.mp h.parents_end).mono fun id => ?_
    unfold parentOf
    rcases hid id with heq | heq
    · exact .inl (by rw [heq])
    · exact .inr (by rw [heq]; rfl)

theorem Closed.origin_ok (c : Closed records records') (a : Accepted host records) (hr : r ∈ records') :
    originValidate records' r = .ok () := by
  have h := a.origin_ok r (c.sub r hr)
  unfold originValidate at *
  cases horigin : r.helperCompletion with
  | none => rfl
  | some origin =>
    simp only [horigin, bind_eq_ok, ensure_eq_ok] at h ⊢
    obtain ⟨_, h1, h2⟩ := h
    refine ⟨(), h1, ?_⟩
    cases hsource : byId records origin.helperRunId with
    | none =>
      have hnone : byId records' origin.helperRunId = none := by
        rcases c.lookup a.ids origin.helperRunId with heq | heq
        · rw [heq, hsource]
        · exact heq
      simpa only [hnone, hsource] using h2
    | some source =>
      by_cases hsettled : r.status.isTerminal = true ∧ r.mirrored = true
      · rcases c.lookup a.ids origin.helperRunId with heq | heq
        · simpa only [heq, hsource] using h2
        · simpa only [heq, ensure_eq_ok] using hsettled
      · -- the source of a completion that is not in the history store stays
        simp only [hsource, ensure_eq_ok, isSourceOf, Option.any_eq_true, Bool.and_eq_true, beq_iff_eq] at h2
        obtain ⟨helper, hhelper, hfields⟩ := h2
        have hkept : source ∈ records' :=
          c.source_kept r hr hsettled source (mem_of_byId hsource).1 helper hhelper hfields.2
        have hfound : byId records' origin.helperRunId = some source :=
          (byId_eq_some c.ids).mpr ⟨hkept, (mem_of_byId hsource).2⟩
        simp only [hfound, ensure_eq_ok, isSourceOf, Option.any_eq_true, Bool.and_eq_true, beq_iff_eq]
        exact ⟨helper, hhelper, hfields⟩

theorem nodup_filterMap_of_sub {κ : Type} {f : RunRecord → Option κ} (h : (records.filterMap f).Nodup)
    (hn : (records.map (·.id)).Nodup) (hsub : ∀ r ∈ records', r ∈ records) (hn' : (records'.map (·.id)).Nodup) :
    (records'.filterMap f).Nodup := by
  have hperm : ∃ l, l.Sublist records ∧ records'.Perm l := by
    refine ⟨records.filter fun r => decide (r ∈ records'), List.filter_sublist, ?_⟩
    rw [List.perm_ext_iff_of_nodup hn'.of_map (hn.of_map.filter _)]
    intro r
    simp only [List.mem_filter, decide_eq_true_eq]
    exact ⟨fun hr => ⟨hsub r hr, hr⟩, fun hr => hr.2⟩
  obtain ⟨l, hl, hp⟩ := hperm
  exact (hp.filterMap f).nodup_iff.mpr (h.sublist (hl.filterMap f))

theorem Accepted.closed (a : Accepted host records) (c : Closed records records') : Accepted host records' where
  record_ok := fun r hr => (a.record_ok r (c.sub r hr)).mono (c.lookup a.ids)
  ids := c.ids
  helper_ok := fun _ hr _ hhelper => c.helper_ok a hr hhelper
  launches := nodup_filterMap_of_sub a.launches a.ids c.sub c.ids
  reservations := nodup_filterMap_of_sub a.reservations a.ids c.sub c.ids
  origin_ok := fun _ hr => c.origin_ok a hr

theorem Closed.of_perm (hn : (records.map (·.id)).Nodup) (hp : records'.Perm records) : Closed records records' where
  sub := fun _ hr => hp.mem_iff.mp hr
  ids := (hp.map _).nodup_iff.mpr hn
  parent_kept := fun _ _ _ _ _ _ hp' _ => hp.mem_iff.mpr hp'
  completion_kept := fun _ _ _ _ _ _ hr _ => hp.mem_iff.mpr hr
  source_kept := fun _ _ _ _ hs _ _ _ => hp.mem_iff.mpr hs

/-! ## The ledger -/

namespace RunLedger

variable {ledger : RunLedger} {now : ℕ} {pins live : List String}

/-- Every record is stored under its identifier. -/
def Keyed (ledger : RunLedger) : Prop := ∀ (id : String) (r : RunRecord), ledger[id]? = some r → r.id = id

theorem mem_records : r ∈ ledger.records ↔ ∃ id : String, ledger[id]? = some r := by
  simp only [records, List.mem_map, Prod.exists, exists_eq_right, Table.mem_toList]

theorem Keyed.mem_records (hk : Keyed ledger) : r ∈ ledger.records ↔ ledger[r.id]? = some r := by
  rw [RunLedger.mem_records]
  constructor
  · rintro ⟨id, hid⟩
    rwa [hk id r hid]
  · exact fun h => ⟨r.id, h⟩

theorem Keyed.ids (hk : Keyed ledger) : (ledger.records.map (·.id)).Nodup := by
  have heq : ledger.records.map (·.id) = ledger.toList.map Prod.fst := by
    rw [records, List.map_map]
    refine List.map_congr_left fun entry hentry => ?_
    exact hk entry.1 entry.2 (Table.mem_toList.mp hentry)
  rw [heq]
  exact Table.nodup_toList_fst ledger

theorem snapshotRecords_perm : (ledger.snapshotRecords live).Perm (ledger.records.filter fun r => live.contains r.agentId) :=
  List.mergeSort_perm _ _

theorem snapshotRecords_perm_of_live (hlive : ∀ r ∈ ledger.records, live.contains r.agentId = true) :
    (ledger.snapshotRecords live).Perm ledger.records := by
  refine snapshotRecords_perm.trans ?_
  rw [List.filter_eq_self.mpr hlive]

/-! ### Pruning -/

theorem getElem?_prune (id : String) :
    (ledger.pruneWithPins now pins)[id]? =
      ledger[id]?.filter fun r => !expired ledger now (pinned ledger.records ++ pins) r := by
  unfold pruneWithPins
  rw [Std.ExtTreeMap.getElem?_filter']

theorem prune_eq_some {id : String} :
    (ledger.pruneWithPins now pins)[id]? = some r ↔
      ledger[id]? = some r ∧ expired ledger now (pinned ledger.records ++ pins) r = false := by
  rw [getElem?_prune, Option.filter_eq_some_iff]
  simp

theorem Keyed.prune (hk : Keyed ledger) : Keyed (ledger.pruneWithPins now pins) :=
  fun id r h => hk id r (prune_eq_some.mp h).1

theorem mem_records_prune :
    r ∈ (ledger.pruneWithPins now pins).records ↔
      r ∈ ledger.records ∧ expired ledger now (pinned ledger.records ++ pins) r = false := by
  simp only [mem_records, prune_eq_some]
  exact ⟨fun ⟨id, h, he⟩ => ⟨⟨id, h⟩, he⟩, fun ⟨⟨id, h⟩, he⟩ => ⟨id, h, he⟩⟩

theorem not_expired (h : r.status.isTerminal = false ∨ r.pendingSteers ≠ [] ∨ r.mirrored = false ∨ r.id ∈ pins) :
    expired ledger now pins r = false := by
  unfold expired RunRecord.isPrunable
  rcases h with h | h | h | h <;> simp [h]

theorem not_expired_of_pinned (h : r.id ∈ pinned ledger.records) :
    expired ledger now (pinned ledger.records ++ pins) r = false :=
  not_expired (.inr (.inr (.inr (List.mem_append_left _ h))))

/-- Whether the relations of a helper are not settled. -/
def Unsettled (records : List RunRecord) (r : RunRecord) (helper : AsyncHelper) : Prop :=
  helper.completion.isUnresolved = true ∨ r.status.isTerminal = false ∨
    (∃ parent ∈ records, parent.status.isTerminal = false ∧ parent.id = helper.parentRunId) ∨
    ∃ run ∈ records, (run.status.isTerminal = false ∨ run.mirrored = false) ∧ helper.completion.runId = some run.id

theorem mem_pinned {id : String} :
    id ∈ pinned records ↔ ∃ r ∈ records, ∃ helper, r.asyncHelper = some helper ∧ Unsettled records r helper ∧
      (id = r.id ∨ id = helper.parentRunId ∨ helper.completion.runId = some id) := by
  simp only [pinned, List.mem_flatMap]
  refine exists_congr fun r => and_congr_right fun _ => ?_
  cases hhelper : r.asyncHelper with
  | none => simp
  | some helper =>
    simp only [Option.some.injEq, exists_eq_left']
    have hcond : (helper.completion.isUnresolved || !r.status.isTerminal ||
        ((records.filter fun r => !r.status.isTerminal).map (·.id)).contains helper.parentRunId ||
        helper.completion.runId.any
          ((records.filter fun r => !r.status.isTerminal || !r.mirrored).map (·.id)).contains) = true ↔
        Unsettled records r helper := by
      unfold Unsettled
      simp only [Bool.or_eq_true, Bool.not_eq_true', List.contains_eq_mem, decide_eq_true_eq, List.mem_map,
        List.mem_filter, Option.any_eq_true, or_assoc, and_assoc]
      refine or_congr_right (or_congr_right (or_congr_right ?_))
      constructor
      · rintro ⟨_, hid, run, hrun, hpending, rfl⟩
        exact ⟨run, hrun, hpending, hid⟩
      · rintro ⟨run, hrun, hpending, hid⟩
        exact ⟨run.id, hid, run, hrun, hpending, rfl⟩
    by_cases hu : Unsettled records r helper
    · rw [if_pos (hcond.mpr hu)]
      simp only [List.mem_cons, Option.mem_toList, hu, true_and]
    · rw [if_neg (fun h => hu (hcond.mp h))]
      simp [hu]

theorem closed_prune (hk : Keyed ledger) : Closed ledger.records (ledger.pruneWithPins now pins).records where
  sub := fun r hr => (mem_records_prune.mp hr).1
  ids := hk.prune.ids
  parent_kept := by
    intro r hr helper hhelper hu parent hparent hid
    refine mem_records_prune.mpr ⟨hparent, not_expired_of_pinned (mem_pinned.mpr ?_)⟩
    refine ⟨r, (mem_records_prune.mp hr).1, helper, hhelper, ?_, .inr (.inl hid)⟩
    simp only [Bool.or_eq_true, Bool.not_eq_true'] at hu
    exact hu.elim .inl fun h => .inr (.inl h)
  completion_kept := by
    intro r hr helper hhelper hu run hrun hid
    refine mem_records_prune.mpr ⟨hrun, not_expired_of_pinned (mem_pinned.mpr ?_)⟩
    exact ⟨r, (mem_records_prune.mp hr).1, helper, hhelper, .inl hu, .inr (.inr hid.symm)⟩
  source_kept := by
    intro r hr hpending source hsource helper hhelper hid
    refine mem_records_prune.mpr ⟨hsource, not_expired_of_pinned (mem_pinned.mpr ?_)⟩
    refine ⟨source, hsource, helper, hhelper, .inr (.inr (.inr ?_)), .inl rfl⟩
    refine ⟨r, (mem_records_prune.mp hr).1, ?_, hid⟩
    cases ht : r.status.isTerminal with
    | false => exact .inl rfl
    | true =>
      cases hm : r.mirrored with
      | false => exact .inr rfl
      | true => exact absurd ⟨ht, hm⟩ hpending

variable (now pins) in
theorem accepted_prune (hk : Keyed ledger) (a : Accepted host ledger.records) :
    Accepted host (ledger.pruneWithPins now pins).records := a.closed (closed_prune hk)

theorem pinned_prune {id : String} (h : id ∈ pinned ledger.records) :
    id ∈ pinned (ledger.pruneWithPins now pins).records := by
  obtain ⟨r, hr, helper, hhelper, hu, hid⟩ := mem_pinned.mp h
  have hkept : r ∈ (ledger.pruneWithPins now pins).records :=
    mem_records_prune.mpr ⟨hr, not_expired_of_pinned (mem_pinned.mpr ⟨r, hr, helper, hhelper, hu, .inl rfl⟩)⟩
  refine mem_pinned.mpr ⟨r, hkept, helper, hhelper, ?_, hid⟩
  rcases hu with hu | hu | ⟨parent, hparent, hactive, heq⟩ | ⟨run, hrun, hpending, heq⟩
  · exact .inl hu
  · exact .inr (.inl hu)
  · exact .inr (.inr (.inl ⟨parent, mem_records_prune.mpr ⟨hparent, not_expired (.inl hactive)⟩, hactive, heq⟩))
  · have hstays : run ∈ (ledger.pruneWithPins now pins).records := by
      refine mem_records_prune.mpr ⟨hrun, not_expired ?_⟩
      exact hpending.elim .inl fun h => .inr (.inr (.inl h))
    exact .inr (.inr (.inr ⟨run, hstays, hpending, heq⟩))

theorem prune_prune (hk : Keyed ledger) :
    (ledger.pruneWithPins now pins).pruneWithPins now pins = ledger.pruneWithPins now pins := by
  refine Table.ext_getElem? fun id => ?_
  cases h : (ledger.pruneWithPins now pins)[id]? with
  | none => rw [getElem?_prune, h, Option.filter_none]
  | some r =>
    refine prune_eq_some.mpr ⟨h, ?_⟩
    have hold := (prune_eq_some.mp h).2
    by_contra hexp
    rw [Bool.not_eq_false] at hexp
    -- a record that would leave now would have left before: it was not pinned then, and no fewer runs were newer
    refine Bool.false_ne_true (hold.symm.trans ?_)
    unfold expired at hexp ⊢
    simp only [Bool.and_eq_true, Bool.not_eq_true', Bool.or_eq_true, decide_eq_true_eq, List.contains_eq_mem,
      decide_eq_false_iff_not, List.mem_append, not_or] at hexp ⊢
    obtain ⟨⟨⟨hprunable, hpin, hsource⟩, hmirrored⟩, hlate⟩ := hexp
    refine ⟨⟨⟨hprunable, fun hp => hpin (pinned_prune hp), hsource⟩, hmirrored⟩, ?_⟩
    refine hlate.imp_left fun hrank => hrank.trans ?_
    have hsub : (retained (ledger.pruneWithPins now pins)
        (pinned (ledger.pruneWithPins now pins).records ++ pins) r.agentId).Subperm
        (retained ledger (pinned ledger.records ++ pins) r.agentId) := by
      refine List.subperm_of_subset (hk.prune.ids.of_map.filter _) ?_
      intro other hother
      unfold retained at hother ⊢
      simp only [List.mem_filter, Bool.and_eq_true, Bool.not_eq_true', List.contains_eq_mem, decide_eq_false_iff_not,
        List.mem_append, not_or] at hother ⊢
      obtain ⟨hmem, hagent, hpin', hsource'⟩ := hother
      exact ⟨(mem_records_prune.mp hmem).1, hagent, fun hp => hpin' (pinned_prune hp), hsource'⟩
    exact hsub.countP_le _

end RunLedger

end AnimaCore.Runs
