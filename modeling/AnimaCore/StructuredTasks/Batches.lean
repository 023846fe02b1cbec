import AnimaCore.StructuredTasks.Accepted

/-!
# AnimaCore.StructuredTasks.Batches — merges and the active context

* `Merged`: what a batch makes of a list, said of the whole batch; `merged_of_foldlM` derives it from the steps.
-/

namespace AnimaCore.StructuredTasks

open Lib

section

variable {encode : List TaskRecord → String} {tasks r : List TaskRecord} {patches : List TaskPatch} {patch : TaskPatch}

/-! ## The loop -/

theorem loop_iff {loop : MergeLoop} (h : Located loop) :
    (∃ loop', patches.foldlM MergeLoop.next loop = .ok loop' ∧ loop'.result = r) ↔
      (∀ p ∈ patches, validTaskId p.id = true ∧ p.id ∉ loop.changed) ∧ (patches.map (·.id)).Nodup ∧
        patches.foldlM patched loop.result = .ok r := by
  induction patches generalizing loop with
  | nil =>
    show (∃ loop', (Except.ok loop : TaskResult _) = .ok loop' ∧ loop'.result = r) ↔
      _ ∧ _ ∧ (Except.ok loop.result : TaskResult _) = .ok r
    simp
  | cons p patches ih =>
    rw [List.foldlM_cons, List.foldlM_cons, MergeLoop.next_eq h p, List.map_cons, List.nodup_cons]
    simp only [bind_eq_ok, ensure_eq_ok, pure, Except.pure, Except.ok.injEq]
    constructor
    · rintro ⟨loop', ⟨_, ⟨_, hvalid, _, hnew, result, hresult, rfl⟩, hrun⟩, hr⟩
      obtain ⟨hall, hnd, hsteps⟩ := (ih (h.after hresult)).mp ⟨loop', hrun, hr⟩
      refine ⟨fun q hq => ?_, ⟨fun hmem => ?_, hnd⟩, result, hresult, hsteps⟩
      · rcases List.mem_cons.mp hq with rfl | hq
        · exact ⟨hvalid, hnew⟩
        · exact ⟨(hall q hq).1, fun hc => (hall q hq).2 (List.mem_cons_of_mem _ hc)⟩
      · obtain ⟨q, hq, hid⟩ := List.mem_map.mp hmem
        exact (hall q hq).2 (hid ▸ List.mem_cons_self)
    · rintro ⟨hall, ⟨hnot, hnd⟩, result, hresult, hsteps⟩
      obtain ⟨hvalid, hnew⟩ := hall p List.mem_cons_self
      have hrest : ∀ q ∈ patches, validTaskId q.id = true ∧ q.id ∉ (loop.after p result).changed := by
        intro q hq
        obtain ⟨hqvalid, hqnew⟩ := hall q (List.mem_cons_of_mem _ hq)
        refine ⟨hqvalid, fun hc => ?_⟩
        rcases List.mem_cons.mp hc with heq | hc
        · exact hnot (heq ▸ List.mem_map_of_mem hq)
        · exact hqnew hc
      obtain ⟨loop', hrun, hr⟩ := (ih (h.after hresult)).mpr ⟨hrest, hnd, hsteps⟩
      exact ⟨loop', ⟨_, ⟨(), hvalid, (), hnew, result, hresult, rfl⟩, hrun⟩, hr⟩

theorem patched_ne_panicked (tasks : List TaskRecord) (patch : TaskPatch) : patched tasks patch ≠ .error .panicked := by
  unfold patched
  by_cases hmem : patch.id ∈ tasks.map (·.id)
  · rw [if_pos hmem]
    simp
  · rw [if_neg hmem]
    refine bind_ne_error (by simp) fun _ _ => bind_ne_error patch.newTask_ne_panicked fun _ _ => ?_
    simp [pure, Except.pure]

theorem loop_ne_panicked {loop : MergeLoop} (h : Located loop) : patches.foldlM MergeLoop.next loop ≠ .error .panicked := by
  induction patches generalizing loop with
  | nil => simp [pure, Except.pure]
  | cons p patches ih =>
    rw [List.foldlM_cons, MergeLoop.next_eq h p]
    intro hfault
    simp only [bind_eq_error, bind_eq_ok, ensure_eq_error, ensure_eq_ok, pure, Except.pure, Except.ok.injEq] at hfault
    rcases hfault with (⟨-, hne⟩ | ⟨_, -, ⟨-, hne⟩ | ⟨_, -, hstep | ⟨_, -, hne⟩⟩⟩) |
      ⟨_, ⟨_, -, _, -, result, hresult, rfl⟩, hrun⟩
    · cases hne
    · cases hne
    · exact patched_ne_panicked _ _ hstep
    · cases hne
    · exact ih (h.after hresult) hrun

/-! ## Merging -/

theorem located_start (hnd : (tasks.map (·.id)).Nodup) :
    Located { result := tasks, positions := positionsOf tasks, changed := [] } := ⟨hnd, positionsOf_spec hnd⟩

theorem merge_iff : merge encode tasks patches = .ok r ↔ validate encode tasks = .ok () ∧ patches.length ≤ maxTasks ∧
    (∀ p ∈ patches, validTaskId p.id = true) ∧ (patches.map (·.id)).Nodup ∧ patches.foldlM patched tasks = .ok r ∧
    validate encode r = .ok () := by
  unfold merge
  simp only [bind_eq_ok, ensure_eq_ok, pure, Except.pure, Except.ok.injEq]
  constructor
  · rintro ⟨_, hvalid, _, hlen, loop, hrun, _, hresult, rfl⟩
    have hstart := located_start (validate_iff.mp hvalid).2.2.1.ids
    obtain ⟨hall, hnd, hsteps⟩ := (loop_iff hstart).mp ⟨loop, hrun, rfl⟩
    exact ⟨hvalid, hlen, fun p hp => (hall p hp).1, hnd, hsteps, hresult⟩
  · rintro ⟨hvalid, hlen, hids, hnd, hsteps, hresult⟩
    have hstart := located_start (validate_iff.mp hvalid).2.2.1.ids
    obtain ⟨loop, hrun, rfl⟩ := (loop_iff hstart).mpr ⟨fun p hp => ⟨hids p hp, List.not_mem_nil⟩, hnd, hsteps⟩
    exact ⟨(), hvalid, (), hlen, loop, hrun, (), hresult, rfl⟩

theorem merge_ne_panicked : merge encode tasks patches ≠ .error .panicked := by
  unfold merge
  refine bind_ne_error validate_ne_panicked fun _ hvalid => bind_ne_error (by simp) fun _ _ =>
    bind_ne_error (loop_ne_panicked (located_start (validate_iff.mp hvalid).2.2.1.ids)) fun _ _ =>
    bind_ne_error validate_ne_panicked fun _ _ => ?_
  simp [pure, Except.pure]

def patchedBy (patches : List TaskPatch) (task : TaskRecord) : TaskRecord :=
  (patches.find? fun p => decide (p.id = task.id)).elim task fun p => p.apply task

/-- The existing tasks stay where they are, each with the fields of its patch; the other patches are appended as tasks. -/
def Merged (tasks : List TaskRecord) (patches : List TaskPatch) (r : List TaskRecord) : Prop :=
  ∃ added, List.Forall₂ (fun (p : TaskPatch) t => p.newTask = .ok t)
      (patches.filter fun p => decide (p.id ∉ tasks.map (·.id))) added ∧
    r = tasks.map (patchedBy patches) ++ added

theorem newTasks_ids {added : List TaskRecord}
    (h : List.Forall₂ (fun (p : TaskPatch) t => p.newTask = .ok t) patches added) :
    added.map (·.id) = patches.map (·.id) := by
  induction h with
  | nil => rfl
  | cons htask _ ih => rw [List.map_cons, List.map_cons, ih, TaskPatch.newTask_id htask]

theorem patchedBy_id (patches : List TaskPatch) (task : TaskRecord) : (patchedBy patches task).id = task.id := by
  unfold patchedBy
  cases patches.find? fun p => decide (p.id = task.id) with
  | none => rfl
  | some p => rfl

theorem patchedBy_append_singleton {task : TaskRecord} (hnew : patch.id ∉ patches.map (·.id)) :
    patchedBy (patches ++ [patch]) task = if task.id = patch.id then patch.apply task else patchedBy patches task := by
  unfold patchedBy
  rw [List.find?_append]
  by_cases hid : task.id = patch.id
  · have hnone : patches.find? (fun p => decide (p.id = task.id)) = none := by
      rw [List.find?_eq_none]
      intro p hp hpid
      exact hnew (List.mem_map.mpr ⟨p, hp, (of_decide_eq_true hpid).trans hid⟩)
    rw [if_pos hid, hnone]
    simp [hid]
  · rw [if_neg hid]
    have hne : patch.id ≠ task.id := fun h => hid h.symm
    simp [hne]

theorem merged_of_foldlM (hpatches : (patches.map (·.id)).Nodup) (h : patches.foldlM patched tasks = .ok r) :
    Merged tasks patches r := by
  induction patches using List.reverseRecOn generalizing r with
  | nil =>
    cases h
    have hsame : ∀ t ∈ tasks, patchedBy [] t = t := fun _ _ => rfl
    exact ⟨[], .nil, by rw [List.append_nil, List.map_congr_left hsame, List.map_id']⟩
  | append_singleton patches patch ih =>
    rw [List.map_append, List.map_singleton, List.nodup_append] at hpatches
    obtain ⟨hnd, -, hdisjoint⟩ := hpatches
    have hnew : patch.id ∉ patches.map (·.id) := fun hmem => hdisjoint _ hmem _ List.mem_cons_self rfl
    rw [List.foldlM_append, bind_eq_ok] at h
    obtain ⟨before, hbefore, hstep⟩ := h
    simp only [List.foldlM_cons, List.foldlM_nil, bind_pure] at hstep
    obtain ⟨added, hadded, rfl⟩ := ih hnd hbefore
    have haddedIds := newTasks_ids hadded
    have hnotAdded : patch.id ∉ added.map (·.id) := by
      rw [haddedIds]
      exact fun hmem => hnew (List.map_subset _ List.filter_sublist.subset hmem)
    have hids : patch.id ∈ (tasks.map (patchedBy patches) ++ added).map (·.id) ↔ patch.id ∈ tasks.map (·.id) := by
      rw [List.map_append, List.mem_append, List.map_map]
      have hsame : tasks.map ((fun t => t.id) ∘ patchedBy patches) = tasks.map (·.id) :=
        List.map_congr_left fun t _ => patchedBy_id patches t
      rw [hsame]
      exact ⟨fun hmem => hmem.resolve_right hnotAdded, .inl⟩
    have hmap : tasks.map (patchedBy (patches ++ [patch])) =
        tasks.map fun t => if t.id = patch.id then patch.apply t else patchedBy patches t :=
      List.map_congr_left fun t _ => patchedBy_append_singleton hnew
    unfold patched at hstep
    unfold Merged
    rw [List.filter_append, hmap]
    by_cases hmem : patch.id ∈ tasks.map (·.id)
    · rw [if_pos (hids.mpr hmem)] at hstep
      cases hstep
      have hlast : [patch].filter (fun p => decide (p.id ∉ tasks.map (·.id))) = [] := by
        rw [List.filter_singleton, decide_eq_false fun h => h hmem]
        rfl
      refine ⟨added, by rwa [hlast, List.append_nil], ?_⟩
      rw [List.map_append, List.map_map]
      congr 1
      · refine List.map_congr_left fun t ht => ?_
        show (if (patchedBy patches t).id = patch.id then patch.apply (patchedBy patches t) else patchedBy patches t) = _
        rw [patchedBy_id]
        by_cases hid : t.id = patch.id
        · have hnone : patches.find? (fun p => decide (p.id = t.id)) = none := by
            rw [List.find?_eq_none]
            intro p hp hpid
            exact hnew (List.mem_map.mpr ⟨p, hp, (of_decide_eq_true hpid).trans hid⟩)
          have hself : patchedBy patches t = t := by
            unfold patchedBy
            rw [hnone]
            rfl
          rw [if_pos hid, if_pos hid, hself]
        · rw [if_neg hid, if_neg hid]
      · have hfix : ∀ t ∈ added, (if t.id = patch.id then patch.apply t else t) = t := by
          intro t ht
          have hne : t.id ≠ patch.id := fun hid => hnotAdded (hid ▸ List.mem_map_of_mem ht)
          rw [if_neg hne]
        rw [List.map_congr_left hfix, List.map_id']
    · rw [if_neg fun h => hmem (hids.mp h)] at hstep
      simp only [bind_eq_ok, ensure_eq_ok, pure, Except.pure, Except.ok.injEq] at hstep
      obtain ⟨_, -, task, htask, rfl⟩ := hstep
      have hsame : (tasks.map fun t => if t.id = patch.id then patch.apply t else patchedBy patches t) =
          tasks.map (patchedBy patches) := by
        refine List.map_congr_left fun t ht => ?_
        have hne : t.id ≠ patch.id := fun hid => hmem (hid ▸ List.mem_map_of_mem ht)
        rw [if_neg hne]
      refine ⟨added ++ [task], ?_, by rw [hsame, List.append_assoc]⟩
      have hlast : [patch].filter (fun p => decide (p.id ∉ tasks.map (·.id))) = [patch] := by
        rw [List.filter_singleton, decide_eq_true hmem]
        rfl
      rw [hlast]
      exact List.rel_append hadded (.cons htask .nil)

theorem Merged.mem_ids (h : Merged tasks patches r) (hp : patch ∈ patches) : patch.id ∈ r.map (·.id) := by
  obtain ⟨added, hadded, rfl⟩ := h
  rw [List.map_append, List.mem_append, newTasks_ids hadded]
  by_cases hmem : patch.id ∈ tasks.map (·.id)
  · left
    obtain ⟨t, ht, hid⟩ := List.mem_map.mp hmem
    rw [List.map_map]
    exact List.mem_map.mpr ⟨t, ht, (patchedBy_id patches t).trans hid⟩
  · right
    exact List.mem_map_of_mem (List.mem_filter.mpr ⟨hp, by simpa using hmem⟩)

/-! ## One patch at a time -/

theorem steps_of_merges (hvalid : validate encode tasks = .ok ())
    (h : patches.foldlM (fun tasks p => merge encode tasks [p]) tasks = .ok r) :
    patches.foldlM patched tasks = .ok r ∧ (∀ p ∈ patches, validTaskId p.id = true) ∧ validate encode r = .ok () := by
  induction patches generalizing tasks with
  | nil =>
    cases h
    exact ⟨rfl, by simp, hvalid⟩
  | cons p patches ih =>
    rw [List.foldlM_cons, bind_eq_ok] at h
    obtain ⟨next, hmerge, hrest⟩ := h
    obtain ⟨-, -, hid, -, hstep, hnext⟩ := merge_iff.mp hmerge
    simp only [List.foldlM_cons, List.foldlM_nil, bind_pure] at hstep
    obtain ⟨hsteps, hids, hr⟩ := ih hnext hrest
    refine ⟨?_, fun q hq => ?_, hr⟩
    · rw [List.foldlM_cons, bind_eq_ok]
      exact ⟨next, hstep, hsteps⟩
    · rcases List.mem_cons.mp hq with rfl | hq
      · exact hid q List.mem_cons_self
      · exact hids q hq

theorem merge_of_merges (hvalid : validate encode tasks = .ok ()) (hnd : (patches.map (·.id)).Nodup)
    (h : patches.foldlM (fun tasks p => merge encode tasks [p]) tasks = .ok r) : merge encode tasks patches = .ok r := by
  obtain ⟨hsteps, hids, hr⟩ := steps_of_merges hvalid h
  have hmerged := merged_of_foldlM hnd hsteps
  have hsub : patches.map (·.id) ⊆ r.map (·.id) := by
    intro id hid
    obtain ⟨p, hp, rfl⟩ := List.mem_map.mp hid
    exact hmerged.mem_ids hp
  have hlen := (List.subperm_of_subset hnd hsub).length_le
  rw [List.length_map, List.length_map] at hlen
  exact merge_iff.mpr ⟨hvalid, hlen.trans (validate_iff.mp hr).1, hids, hnd, hsteps, hr⟩

/-! ## The active context -/

def InContext (tasks : List TaskRecord) (t : TaskRecord) : Prop :=
  t ∈ tasks ∧ ∃ a ∈ tasks, a.status.isActive = true ∧ Relation.ReflTransGen (ParentOf tasks) a.id t.id

theorem activeContext_spec (h : validate encode tasks = .ok ()) (maxBytes : ℕ) : ∃ kept, kept.Sublist tasks ∧
    (∀ t, t ∈ kept ↔ InContext tasks t) ∧ activeContext encode tasks maxBytes = .ok
      (if kept = [] then { json := none, omittedForBudget := false }
      else if min maxBytes maxTaskPayloadBytes < (encode kept).utf8ByteSize then { json := none, omittedForBudget := true }
      else { json := some (encode kept), omittedForBudget := false }) := by
  obtain ⟨-, -, hforest, -⟩ := validate_iff.mp h
  have hclosed : ∀ a b, Up (parentsOf (tasksById tasks)) a b → (parentsOf (tasksById tasks) b).isSome := by
    intro a b hab
    obtain ⟨t, ht, -, hparent⟩ := (up_iff hforest.ids).mp hab
    exact isSome_parentsOf.mpr (hforest.known t ht b hparent)
  have hstarts : ∀ a ∈ (tasks.filter (·.status.isActive)).map (·.id), (parentsOf (tasksById tasks) a).isSome := by
    intro a ha
    exact isSome_parentsOf.mpr (List.map_subset _ List.filter_sublist.subset ha)
  have hrounds : (tasks.map (·.id)).length < tasks.length + 1 := by
    rw [List.length_map]
    omega
  obtain ⟨keep, hrun, hkeep⟩ := markAll_spec hclosed mem_of_isSome_parentsOf hrounds hstarts
  have hmem : ∀ t ∈ tasks, t.id ∈ keep ↔ InContext tasks t := by
    intro t ht
    rw [hkeep t.id]
    unfold Above
    rw [up_eq hforest.ids]
    constructor
    · rintro ⟨id, hid, habove⟩
      obtain ⟨a, hfiltered, rfl⟩ := List.mem_map.mp hid
      obtain ⟨ha, hactive⟩ := List.mem_filter.mp hfiltered
      exact ⟨ht, a, ha, hactive, habove⟩
    · rintro ⟨-, a, ha, hactive, habove⟩
      exact ⟨a.id, List.mem_map_of_mem (List.mem_filter.mpr ⟨ha, hactive⟩), habove⟩
  have hnil : keep = [] ↔ tasks.filter (fun task => decide (task.id ∈ keep)) = [] := by
    constructor
    · intro hempty
      simp [hempty]
    · intro hempty
      rw [List.filter_eq_nil_iff] at hempty
      rw [List.eq_nil_iff_forall_not_mem]
      intro b hb
      obtain ⟨a, ha, habove⟩ := (hkeep b).mp hb
      obtain ⟨t, ht, rfl⟩ := List.mem_map.mp (List.map_subset _ List.filter_sublist.subset ha)
      exact hempty t ht (decide_eq_true ((hkeep t.id).mpr ⟨t.id, ha, .refl⟩))
  refine ⟨tasks.filter fun task => decide (task.id ∈ keep), List.filter_sublist, fun t => ?_, ?_⟩
  · rw [List.mem_filter, decide_eq_true_eq]
    exact ⟨fun ⟨ht, hin⟩ => (hmem t ht).mp hin, fun hin => ⟨hin.1, (hmem t hin.1).mpr hin⟩⟩
  · unfold activeContext
    simp only [h, hrun, okOr, bind, Except.bind, pure, Except.pure]
    by_cases hempty : keep = []
    · rw [if_pos hempty, if_pos (hnil.mp hempty)]
    · rw [if_neg hempty, if_neg fun hk => hempty (hnil.mpr hk)]
      by_cases hsize : min maxBytes maxTaskPayloadBytes <
          (encode (tasks.filter fun task => decide (task.id ∈ keep))).utf8ByteSize
      · rw [if_pos hsize, if_pos hsize]
      · rw [if_neg hsize, if_neg hsize]

/-- **Task lists are forests, and the active context is closed upwards.** -/
theorem task_lists_are_forests (encode : List TaskRecord → String) (tasks : List TaskRecord)
    (h : validate encode tasks = .ok ()) :
    IsForest tasks ∧
    (∀ patches, merge encode tasks patches ≠ .error .panicked ∧
      (∀ r, merge encode tasks patches = .ok r → validate encode r = .ok () ∧ Merged tasks patches r) ∧
      ∀ r', patches.foldlM (fun tasks p => merge encode tasks [p]) tasks = .ok r' →
        (∀ r, merge encode tasks patches = .ok r → r = r') ∧
        ((patches.map (·.id)).Nodup → merge encode tasks patches = .ok r')) ∧
    ∀ maxBytes, ∃ kept context, kept.Sublist tasks ∧ (∀ t, t ∈ kept ↔ InContext tasks t) ∧
      activeContext encode tasks maxBytes = .ok context ∧
      (context.json = none ∨ context.json = some (encode kept)) ∧
      (context.omittedForBudget = true ↔ kept ≠ [] ∧ min maxBytes maxTaskPayloadBytes < (encode kept).utf8ByteSize) ∧
      (context.json = none ∧ context.omittedForBudget = false ↔ ∀ t ∈ tasks, t.status.isActive = false) := by
  refine ⟨(validate_iff.mp h).2.2.1, fun patches => ⟨merge_ne_panicked, fun r hr => ?_, fun r' hr' => ⟨fun r hr => ?_, ?_⟩⟩,
    fun maxBytes => ?_⟩
  · obtain ⟨-, -, -, hnd, hsteps, hvalid⟩ := merge_iff.mp hr
    exact ⟨hvalid, merged_of_foldlM hnd hsteps⟩
  · obtain ⟨-, -, -, -, hsteps, -⟩ := merge_iff.mp hr
    have hsame := hsteps.symm.trans (steps_of_merges h hr').1
    exact Except.ok.inj hsame
  · exact fun hnd => merge_of_merges h hnd hr'
  · obtain ⟨kept, hsub, hmem, hcontext⟩ := activeContext_spec h maxBytes
    have hnone : kept = [] ↔ ∀ t ∈ tasks, t.status.isActive = false := by
      rw [List.eq_nil_iff_forall_not_mem]
      constructor
      · intro hempty t ht
        rw [Bool.eq_false_iff]
        exact fun hactive => hempty t ((hmem t).mpr ⟨ht, t, ht, hactive, .refl⟩)
      · rintro hall t ht
        obtain ⟨-, a, ha, hactive, -⟩ := (hmem t).mp ht
        rw [hall a ha] at hactive
        cases hactive
    refine ⟨kept, _, hsub, hmem, hcontext, ?_⟩
    rw [← hnone]
    by_cases hempty : kept = []
    · rw [if_pos hempty]
      simp [hempty]
    · rw [if_neg hempty]
      by_cases hsize : min maxBytes maxTaskPayloadBytes < (encode kept).utf8ByteSize
      · rw [if_pos hsize]
        simp [hempty, hsize]
      · rw [if_neg hsize]
        simp [hempty, hsize]

end

namespace Sample

def encode (tasks : List TaskRecord) : String := String.join (tasks.map (·.id))

def goalAndStep : List TaskRecord :=
  [⟨"goal", "Ship it", .pending, "Shipping it", none⟩, ⟨"step", "Test it", .inProgress, "Testing it", some "goal"⟩]

end Sample

theorem task_lists_are_forests_pair :
    validate Sample.encode Sample.goalAndStep = .ok () ∧ IsForest Sample.goalAndStep :=
  ⟨by decide +kernel, (task_lists_are_forests Sample.encode Sample.goalAndStep (by decide +kernel)).1⟩

end AnimaCore.StructuredTasks
