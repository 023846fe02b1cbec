import AnimaCore.StructuredTasks

/-!
# AnimaCore.StructuredTasks.Accepted — the lists that are accepted

* `patched`: one patch as a step on the list alone; `MergeLoop.next_eq` says that the loop of `merge` takes this step,
  as long as its table of positions is right (`Located`).
-/

namespace AnimaCore.StructuredTasks

open Lib

variable {encode : List TaskRecord → String} {tasks r : List TaskRecord} {patches : List TaskPatch} {patch : TaskPatch}

/-! ## The forest -/

/-- `a` is a task whose parent is `b`. -/
def ParentOf (tasks : List TaskRecord) (a b : String) : Prop := ∃ t ∈ tasks, t.id = a ∧ t.parent = some b

structure IsForest (tasks : List TaskRecord) : Prop where
  ids : (tasks.map (·.id)).Nodup
  known : ∀ t ∈ tasks, ∀ p ∈ t.parent, p ∈ tasks.map (·.id)
  acyclic : ∀ a, ¬ Relation.TransGen (ParentOf tasks) a a

structure ValidFields (task : TaskRecord) : Prop where
  id : validTaskId task.id = true
  parent : task.parent.all validTaskId = true
  content : validText task.content = true
  activeForm : validText task.activeForm = true

theorem addById_eq_ok {byId b : Table String TaskRecord} {task : TaskRecord} :
    addById byId task = .ok b ↔ ValidFields task ∧ task.id ∉ byId ∧ byId.insert task.id task = b := by
  unfold addById
  simp only [bind_eq_ok, ensure_eq_ok, pure, Except.pure, Except.ok.injEq]
  constructor
  · rintro ⟨_, ⟨hid, hparent⟩, _, ⟨hcontent, hform⟩, _, hnew, hb⟩
    exact ⟨⟨hid, hparent, hcontent, hform⟩, hnew, hb⟩
  · rintro ⟨⟨hid, hparent, hcontent, hform⟩, hnew, hb⟩
    exact ⟨(), ⟨hid, hparent⟩, (), ⟨hcontent, hform⟩, (), hnew, hb⟩

theorem tasksById_append_singleton (task : TaskRecord) :
    tasksById (tasks ++ [task]) = (tasksById tasks).insert task.id task := by
  unfold tasksById
  rw [List.foldl_append]
  rfl

theorem mem_tasksById {id : String} : id ∈ tasksById tasks ↔ id ∈ tasks.map (·.id) := by
  induction tasks using List.reverseRecOn with
  | nil => simp [tasksById]
  | append_singleton tasks task ih =>
    rw [tasksById_append_singleton, Std.ExtTreeMap.mem_insert, ih, List.map_append, List.mem_append, compare_eq_iff_eq]
    constructor
    · rintro (rfl | h)
      · exact .inr (List.mem_singleton.mpr rfl)
      · exact .inl h
    · rintro (h | h)
      · exact .inr h
      · exact .inl (List.mem_singleton.mp h).symm

theorem addAll_iff {b : Table String TaskRecord} :
    tasks.foldlM addById ∅ = .ok b ↔ (∀ t ∈ tasks, ValidFields t) ∧ (tasks.map (·.id)).Nodup ∧ tasksById tasks = b := by
  induction tasks using List.reverseRecOn generalizing b with
  | nil =>
    show (Except.ok ∅ : TaskResult _) = .ok b ↔ _
    simp [tasksById]
  | append_singleton tasks task ih =>
    rw [List.foldlM_append, bind_eq_ok, tasksById_append_singleton, List.map_append, List.nodup_append]
    simp only [List.foldlM_cons, List.foldlM_nil, bind_pure, addById_eq_ok, ih]
    constructor
    · rintro ⟨_, ⟨hvalid, hnd, rfl⟩, hfields, hnew, hb⟩
      refine ⟨?_, ⟨hnd, List.nodup_singleton _, ?_⟩, hb⟩
      · intro t ht
        rcases List.mem_append.mp ht with ht | ht
        · exact hvalid t ht
        · rwa [List.mem_singleton.mp ht]
      · rintro id hid _ hlast rfl
        rw [List.mem_singleton.mp hlast] at hid
        exact hnew (mem_tasksById.mpr hid)
    · rintro ⟨hvalid, ⟨hnd, -, hdisjoint⟩, hb⟩
      refine ⟨_, ⟨fun t ht => hvalid t (List.mem_append_left _ ht), hnd, rfl⟩,
        hvalid task (List.mem_append_right _ List.mem_cons_self), fun hmem => ?_, hb⟩
      exact hdisjoint task.id (mem_tasksById.mp hmem) task.id List.mem_cons_self rfl

theorem getElem?_tasksById (hnd : (tasks.map (·.id)).Nodup) {id : String} {t : TaskRecord} :
    (tasksById tasks)[id]? = some t ↔ t ∈ tasks ∧ t.id = id := by
  have hlookup := Table.getElem?_foldl_insert (t := (∅ : Table String TaskRecord)) (·.id) (fun t => t) hnd id
  have hfind : (tasksById tasks)[id]? = tasks.find? fun t => decide (t.id = id) := by
    unfold tasksById
    rw [hlookup]
    simp
  rw [hfind]
  exact Table.find?_key_eq_some hnd

theorem up_iff (hnd : (tasks.map (·.id)).Nodup) {a b : String} :
    Up (parentsOf (tasksById tasks)) a b ↔ ParentOf tasks a b := by
  unfold Up parentsOf ParentOf
  rw [Option.map_eq_some_iff]
  constructor
  · rintro ⟨t, ht, hparent⟩
    obtain ⟨hmem, hid⟩ := (getElem?_tasksById hnd).mp ht
    exact ⟨t, hmem, hid, hparent⟩
  · rintro ⟨t, hmem, hid, hparent⟩
    exact ⟨t, (getElem?_tasksById hnd).mpr ⟨hmem, hid⟩, hparent⟩

theorem up_eq (hnd : (tasks.map (·.id)).Nodup) : Up (parentsOf (tasksById tasks)) = ParentOf tasks := by
  funext a b
  exact propext (up_iff hnd)

theorem isSome_parentsOf {id : String} : (parentsOf (tasksById tasks) id).isSome ↔ id ∈ tasks.map (·.id) := by
  unfold parentsOf
  rw [Option.isSome_map, ← Table.mem_iff_getElem?_isSome, mem_tasksById]

theorem mem_of_isSome_parentsOf (id : String) (h : (parentsOf (tasksById tasks) id).isSome) : id ∈ tasks.map (·.id) :=
  isSome_parentsOf.mp h

theorem checkParents_eq_ok {byId : Table String TaskRecord} {rounds : ℕ} {task : TaskRecord} :
    checkParents byId rounds task = .ok () ↔ climb (parentsOf byId) rounds [task.id] task.parent = .top := by
  unfold checkParents
  cases climb (parentsOf byId) rounds [task.id] task.parent <;> simp

theorem checkAll_iff (hnd : (tasks.map (·.id)).Nodup) :
    (∀ t ∈ tasks, checkParents (tasksById tasks) (tasks.length + 1) t = .ok ()) ↔ IsForest tasks := by
  constructor
  · intro hall
    refine ⟨hnd, ?_, ?_⟩
    · intro t ht p hp
      have htop := checkParents_eq_ok.mp (hall t ht)
      rw [hp] at htop
      exact isSome_parentsOf.mp (climb_top htop .refl).2
    · intro a hcycle
      rw [← up_eq hnd] at hcycle
      obtain ⟨c, hac, hca⟩ := Relation.TransGen.head'_iff.mp hcycle
      obtain ⟨t, ht, hid, hparent⟩ := (up_iff hnd).mp hac
      have htop := checkParents_eq_ok.mp (hall t ht)
      rw [hparent] at htop
      exact (climb_top htop hca).1 (by rw [hid]; exact List.mem_singleton.mpr rfl)
  · intro hforest t ht
    rw [checkParents_eq_ok]
    refine climb_of_acyclic ?_ ?_ mem_of_isSome_parentsOf (List.nodup_singleton _) ?_ ?_ ?_ ?_
    · unfold Acyclic
      rw [up_eq hnd]
      exact hforest.acyclic
    · intro a b hab
      obtain ⟨u, hu, -, hparent⟩ := (up_iff hnd).mp hab
      exact isSome_parentsOf.mpr (hforest.known u hu b hparent)
    · exact List.cons_subset.mpr ⟨List.mem_map_of_mem ht, List.nil_subset _⟩
    · rw [List.length_map, List.length_singleton]
      omega
    · intro p hp
      exact isSome_parentsOf.mpr (hforest.known t ht p hp)
    · intro s hs p hp
      rw [List.mem_singleton.mp hs]
      exact .single ((up_iff hnd).mpr ⟨t, ht, rfl, hp⟩)

theorem validate_iff : validate encode tasks = .ok () ↔ tasks.length ≤ maxTasks ∧ (∀ t ∈ tasks, ValidFields t) ∧
    IsForest tasks ∧ (encode tasks).utf8ByteSize ≤ maxTaskPayloadBytes := by
  unfold validate
  simp only [bind_eq_ok, ensure_eq_ok, addAll_iff, forM_eq_ok]
  constructor
  · rintro ⟨_, hlen, _, ⟨hvalid, hnd, rfl⟩, _, hparents, hbytes⟩
    exact ⟨hlen, hvalid, (checkAll_iff hnd).mp hparents, hbytes⟩
  · rintro ⟨hlen, hvalid, hforest, hbytes⟩
    exact ⟨(), hlen, _, ⟨hvalid, hforest.ids, rfl⟩, (), (checkAll_iff hforest.ids).mpr hforest, hbytes⟩

theorem validate_ne_panicked : validate encode tasks ≠ .error .panicked := by
  have hadd : tasks.foldlM addById ∅ ≠ .error .panicked := by
    refine foldlM_ne_error (fun byId task => ?_) _ _
    unfold addById
    refine bind_ne_error (by simp) fun _ _ => bind_ne_error (by simp) fun _ _ => bind_ne_error (by simp) fun _ _ => ?_
    simp [pure, Except.pure]
  unfold validate
  refine bind_ne_error (by simp) fun _ _ => bind_ne_error hadd fun byId hbyId => bind_ne_error ?_ fun _ _ => by simp
  obtain ⟨-, hnd, rfl⟩ := addAll_iff.mp hbyId
  intro hfault
  obtain ⟨t, ht, hends⟩ := exists_of_forM_eq_error hfault
  unfold checkParents at hends
  have hrounds : (tasks.map (·.id)).length < [t.id].length + (tasks.length + 1) := by
    rw [List.length_map, List.length_singleton]
    omega
  have hclimb := climb_ends mem_of_isSome_parentsOf (List.nodup_singleton t.id)
    (List.cons_subset.mpr ⟨List.mem_map_of_mem ht, List.nil_subset _⟩) hrounds t.parent
  cases hc : climb (parentsOf (tasksById tasks)) (tasks.length + 1) [t.id] t.parent with
  | endless => exact hclimb hc
  | top => simp [hc] at hends
  | cycle => simp [hc] at hends
  | unknown => simp [hc] at hends

/-! ## Merging -/

def patched (tasks : List TaskRecord) (patch : TaskPatch) : TaskResult (List TaskRecord) :=
  if patch.id ∈ tasks.map (·.id) then .ok (tasks.map fun t => if t.id = patch.id then patch.apply t else t)
  else do
    ensure (tasks.length ≠ maxTasks) (.refused .budget)
    let task ← patch.newTask
    return tasks ++ [task]

@[simp] theorem TaskPatch.apply_id (patch : TaskPatch) (task : TaskRecord) : (patch.apply task).id = task.id := rfl

theorem TaskPatch.newTask_id {task : TaskRecord} (h : patch.newTask = .ok task) : task.id = patch.id := by
  unfold TaskPatch.newTask at h
  simp only [bind_eq_ok, pure, Except.pure, Except.ok.injEq] at h
  obtain ⟨_, _, _, _, _, _, rfl⟩ := h
  rfl

theorem TaskPatch.newTask_ne_panicked (patch : TaskPatch) : patch.newTask ≠ .error .panicked := by
  unfold TaskPatch.newTask
  have hok : ∀ {α : Type} (o : Option α), (okOr o (.refused .incompleteNewTask) : TaskResult α) ≠ .error .panicked := by
    intro α o
    cases o <;> simp [okOr]
  refine bind_ne_error (hok _) fun _ _ => bind_ne_error (hok _) fun _ _ => bind_ne_error (hok _) fun _ _ => ?_
  simp [pure, Except.pure]

theorem patched_ids (h : patched tasks patch = .ok r) :
    r.map (·.id) = if patch.id ∈ tasks.map (·.id) then tasks.map (·.id) else tasks.map (·.id) ++ [patch.id] := by
  unfold patched at h
  by_cases hmem : patch.id ∈ tasks.map (·.id)
  · rw [if_pos hmem] at h ⊢
    cases h
    rw [List.map_map]
    refine List.map_congr_left fun t _ => ?_
    show (if t.id = patch.id then patch.apply t else t).id = t.id
    by_cases hid : t.id = patch.id
    · rw [if_pos hid, patch.apply_id]
    · rw [if_neg hid]
  · rw [if_neg hmem] at h ⊢
    simp only [bind_eq_ok, pure, Except.pure, Except.ok.injEq] at h
    obtain ⟨_, _, task, htask, rfl⟩ := h
    rw [List.map_append, List.map_singleton, TaskPatch.newTask_id htask]

/-- The positions are those of the ids, which are distinct. -/
structure Located (loop : MergeLoop) : Prop where
  ids : (loop.result.map (·.id)).Nodup
  position : ∀ (id : String) (i : ℕ), loop.positions[id]? = some i ↔ (loop.result.map (·.id))[i]? = some id

theorem Located.mem {loop : MergeLoop} (h : Located loop) {id : String} :
    id ∈ loop.positions ↔ id ∈ loop.result.map (·.id) := by
  rw [Table.mem_iff_getElem?_isSome, Option.isSome_iff_exists, List.mem_iff_getElem?]
  constructor
  · rintro ⟨i, hi⟩
    exact ⟨i, (h.position id i).mp hi⟩
  · rintro ⟨i, hi⟩
    exact ⟨i, (h.position id i).mpr hi⟩

def MergeLoop.after (loop : MergeLoop) (patch : TaskPatch) (result : List TaskRecord) : MergeLoop where
  result := result
  positions := if patch.id ∈ loop.positions then loop.positions else loop.positions.insert patch.id loop.result.length
  changed := patch.id :: loop.changed

theorem set_eq_map {i : ℕ} {task : TaskRecord} (hnd : (tasks.map (·.id)).Nodup) (hi : tasks[i]? = some task)
    (f : TaskRecord → TaskRecord) : tasks.set i (f task) = tasks.map fun t => if t.id = task.id then f t else t := by
  apply List.ext_getElem?
  intro j
  rw [List.getElem?_set, List.getElem?_map]
  by_cases hij : i = j
  · subst hij
    obtain ⟨hlt, -⟩ := List.getElem?_eq_some_iff.mp hi
    rw [if_pos rfl, if_pos hlt, hi]
    simp
  · rw [if_neg hij]
    cases hj : tasks[j]? with
    | none => rfl
    | some t =>
      have hne : t.id ≠ task.id := by
        intro heq
        have hi' : (tasks.map (·.id))[i]? = some task.id := by rw [List.getElem?_map, hi]; rfl
        have hj' : (tasks.map (·.id))[j]? = some task.id := by rw [List.getElem?_map, hj, ← heq]; rfl
        have hlt : i < (tasks.map (·.id)).length := (List.getElem?_eq_some_iff.mp hi').1
        exact hij ((List.getElem?_inj hlt hnd).mp (hi'.trans hj'.symm))
      simp [hne]

theorem MergeLoop.next_eq {loop : MergeLoop} (h : Located loop) (patch : TaskPatch) : loop.next patch = do
    ensure (validTaskId patch.id = true) (.refused .invalidId)
    ensure (patch.id ∉ loop.changed) (.refused .duplicateId)
    let result ← patched loop.result patch
    return loop.after patch result := by
  unfold MergeLoop.next patched MergeLoop.after
  refine congrArg _ (funext fun _ => congrArg _ (funext fun _ => ?_))
  cases hpos : loop.positions[patch.id]? with
  | none =>
    have hnot : patch.id ∉ loop.positions := Table.not_mem_iff_getElem?_eq_none.mpr hpos
    rw [if_neg fun hmem => hnot (h.mem.mpr hmem), if_neg hnot]
    by_cases hlen : loop.result.length = maxTasks
    · simp [ensure, hlen, bind, Except.bind]
    · cases htask : patch.newTask with
      | error e => simp [ensure, hlen, bind, Except.bind]
      | ok task => simp [ensure, hlen, bind, Except.bind, pure, Except.pure, TaskPatch.newTask_id htask]
  | some i =>
    have hmem : patch.id ∈ loop.positions := Table.mem_of_getElem? hpos
    rw [if_pos (h.mem.mp hmem), if_pos hmem]
    have hid := (h.position patch.id i).mp hpos
    rw [List.getElem?_map, Option.map_eq_some_iff] at hid
    obtain ⟨task, htask, hid⟩ := hid
    have hset := set_eq_map h.ids htask patch.apply
    rw [hid] at hset
    simp [htask, okOr, bind, Except.bind, pure, Except.pure, hset]

theorem Located.after {loop : MergeLoop} (h : Located loop) (hr : patched loop.result patch = .ok r) :
    Located (loop.after patch r) := by
  have hids := patched_ids hr
  by_cases hmem : patch.id ∈ loop.result.map (·.id)
  · rw [if_pos hmem] at hids
    refine ⟨?_, ?_⟩
    · show (r.map (·.id)).Nodup
      rw [hids]
      exact h.ids
    · intro id i
      show (if patch.id ∈ loop.positions then loop.positions else _)[id]? = some i ↔ (r.map (·.id))[i]? = some id
      rw [if_pos (h.mem.mpr hmem), hids]
      exact h.position id i
  · rw [if_neg hmem] at hids
    refine ⟨?_, ?_⟩
    · show (r.map (·.id)).Nodup
      rw [hids, List.nodup_append]
      refine ⟨h.ids, List.nodup_singleton _, ?_⟩
      rintro id hid _ hlast rfl
      exact hmem (List.mem_singleton.mp hlast ▸ hid)
    · intro id i
      show (if patch.id ∈ loop.positions then loop.positions else _)[id]? = some i ↔ (r.map (·.id))[i]? = some id
      rw [if_neg fun hpos => hmem (h.mem.mp hpos), hids, Table.getElem?_insert_eq, List.getElem?_append, List.length_map]
      by_cases hid : patch.id = id
      · subst hid
        rw [if_pos rfl]
        by_cases hi : i < loop.result.length
        · rw [if_pos hi]
          constructor
          · intro heq
            cases heq
            omega
          · intro hfound
            exact absurd (List.mem_of_getElem? hfound) hmem
        · rw [if_neg hi, List.getElem?_singleton]
          by_cases hlast : i - loop.result.length = 0
          · rw [if_pos hlast]
            have : i = loop.result.length := by omega
            simp [this]
          · rw [if_neg hlast]
            simp
            omega
      · rw [if_neg hid]
        by_cases hi : i < loop.result.length
        · rw [if_pos hi]
          exact h.position id i
        · rw [if_neg hi]
          constructor
          · intro hpos
            have hlt := (List.getElem?_eq_some_iff.mp ((h.position id i).mp hpos)).1
            rw [List.length_map] at hlt
            omega
          · intro hlast
            exact absurd (List.mem_singleton.mp (List.mem_of_getElem? hlast)).symm hid

theorem positionsOf_spec (hnd : (tasks.map (·.id)).Nodup) (id : String) (i : ℕ) :
    (positionsOf tasks)[id]? = some i ↔ (tasks.map (·.id))[i]? = some id := by
  have hkeys : (tasks.zipIdx.map fun p => p.1.id) = tasks.map (·.id) := by
    show tasks.zipIdx.map ((fun t : TaskRecord => t.id) ∘ Prod.fst) = _
    rw [← List.map_map, List.zipIdx_map_fst]
  have hnd' : (tasks.zipIdx.map fun p => p.1.id).Nodup := by
    rw [hkeys]
    exact hnd
  have hlookup := Table.getElem?_foldl_insert (t := (∅ : Table String ℕ)) (fun p : TaskRecord × ℕ => p.1.id) (·.2) hnd' id
  unfold positionsOf
  rw [hlookup]
  simp only [Std.ExtTreeMap.getElem?_empty, Option.or_none, Option.map_eq_some_iff]
  constructor
  · rintro ⟨⟨t, j⟩, hfind, rfl⟩
    obtain ⟨hmem, hid⟩ := (Table.find?_key_eq_some hnd').mp hfind
    rw [List.getElem?_map, List.mem_zipIdx_iff_getElem?.mp hmem]
    exact congrArg some hid
  · intro hi
    rw [List.getElem?_map, Option.map_eq_some_iff] at hi
    obtain ⟨t, ht, rfl⟩ := hi
    exact ⟨(t, i), (Table.find?_key_eq_some hnd').mpr ⟨List.mem_zipIdx_iff_getElem?.mpr ht, rfl⟩, rfl⟩

end AnimaCore.StructuredTasks
