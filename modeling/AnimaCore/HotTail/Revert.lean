import AnimaCore.HotTail.Pruning

/-!
# AnimaCore.HotTail.Revert — a pass that is put back

* `Leaves`: the ids that a pass takes from an agent.  `mem_undo_agents`, `mem_undo_ids`: what the pass remembers.
* `moves`: what is remembered of the marks of one session.  `sessions_revert`: which mark it comes to have.
* `RevertSound`, and `revertSound_iff` when it holds: the marks of Discord records are taken back whether or not their agent was
  restored, and the marks of a session are taken back from the first to the last.
-/

namespace AnimaCore.HotTail

open Lib RunDelta Runs AnimaMemory

/-! ## What leaves -/

theorem silentTurns_sub (messages : List Message) (hidden : List String) :
    ∀ turn ∈ silentTurns messages hidden, ∀ x ∈ turn, x ∈ messages := by
  have hclosed : ∀ acc : List (List Message) × List Message,
      (∀ turn ∈ acc.1, ∀ x ∈ turn, x ∈ messages) → (∀ x ∈ acc.2, x ∈ messages) →
        ∀ turn ∈ closedTurns acc, ∀ x ∈ turn, x ∈ messages := by
    intro acc hfirst hsecond turn hturn
    unfold closedTurns at hturn
    split_ifs at hturn
    · exact hfirst turn hturn
    · rcases List.mem_append.mp hturn with h | h
      · exact hfirst turn h
      · obtain rfl := List.mem_singleton.mp h
        exact hsecond
  have hloop : ∀ (l : List Message) (acc : List (List Message) × List Message), (∀ x ∈ l, x ∈ messages) →
      (∀ turn ∈ acc.1, ∀ x ∈ turn, x ∈ messages) → (∀ x ∈ acc.2, x ∈ messages) →
        ∀ turn ∈ closedTurns (l.foldl (silentStep hidden) acc), ∀ x ∈ turn, x ∈ messages := by
    intro l
    induction l with
    | nil => exact fun acc _ => hclosed acc
    | cons x l ih =>
      intro acc hl hfirst hsecond
      have hx := hl x List.mem_cons_self
      have hone : ∀ y ∈ [x], y ∈ messages := by simpa using hx
      rw [List.foldl_cons]
      refine ih _ (fun y hy => hl y (List.mem_cons_of_mem _ hy)) ?_ ?_
      · unfold silentStep
        split_ifs
        · exact hclosed acc hfirst hsecond
        · exact hclosed acc hfirst hsecond
        · exact hfirst
      · unfold silentStep
        split_ifs
        · simp
        · exact hone
        · intro y hy
          rcases List.mem_append.mp hy with h | h
          · exact hsecond y h
          · exact hone y h
  exact hloop messages ([], []) (fun _ h => h) (by simp) (by simp)

namespace DaemonState

variable {sha : String → String} {s : DaemonState} {now : ℕ} {agent id : String} {runtime : AgentRuntime}

variable (sha s now) in
/-- A pass takes the id from the agent: some message of it is free and old in an idle room, and stands before the window there or
in a silent turn that leaves. -/
def Leaves (agent id : String) : Prop :=
  s.Pruning ∧ ∃ roomId, s.Idle sha agent roomId ∧
    ∃ x ∈ roomPrunable (s.eligible now) (room (s.messagesOf agent) roomId) ++
      silentPrunable (s.eligible now) (room (s.messagesOf agent) roomId), x.id = id

theorem leaves_iff (hpruning : s.Pruning) (hagent : s.agents[agent]? = some runtime) :
    s.Leaves sha now agent id ↔ id ∈ s.prunable sha now agent runtime := by
  unfold Leaves prunable
  rw [messagesOf_of_agent hagent, List.mem_flatMap]
  constructor
  · rintro ⟨-, roomId, hidle, x, hx, rfl⟩
    refine ⟨(roomId, room runtime.messages roomId), mem_idleRooms.mpr ⟨rfl, ?_, hidle⟩, List.mem_map_of_mem hx⟩
    rintro hempty
    have hnone : roomPrunable (s.eligible now) [] ++ silentPrunable (s.eligible now) [] = [] := rfl
    rw [hempty, hnone] at hx
    cases hx
  · rintro ⟨⟨roomId, messages⟩, hroom, hid⟩
    obtain ⟨rfl, -, hidle⟩ := mem_idleRooms.mp hroom
    obtain ⟨x, hx, hxid⟩ := List.mem_map.mp hid
    exact ⟨hpruning, roomId, hidle, x, hx, hxid⟩

theorem Leaves.exists_message (h : s.Leaves sha now agent id) :
    ∃ runtime, s.agents[agent]? = some runtime ∧ ∃ x ∈ runtime.messages, x.id = id := by
  obtain ⟨-, roomId, -, x, hx, rfl⟩ := h
  have hin : x ∈ room (s.messagesOf agent) roomId := by
    rcases List.mem_append.mp hx with h | h
    · rw [roomPrunable_eq] at h
      exact outside_sub (List.mem_of_mem_filter h)
    · unfold silentPrunable at h
      obtain ⟨turn, hturn, hxt⟩ := List.mem_flatten.mp h
      exact silentTurns_sub _ _ turn (List.mem_of_mem_filter hturn) x hxt
  have hx := (mem_room.mp hin).1
  rcases hagent : s.agents[agent]? with _ | runtime
  · unfold messagesOf at hx
    rw [hagent] at hx
    cases hx
  · rw [messagesOf_of_agent hagent] at hx
    exact ⟨runtime, rfl, x, hx, rfl⟩

/-! ## What the pass remembers -/

variable (sha s now) in
/-- The agents that something leaves, with the ids. -/
def leaving : List (String × List String) :=
  (s.agents.toList.map fun agent => (agent.1, s.prunable sha now agent.1 agent.2)).filter fun agent => !agent.2.isEmpty

theorem mem_leaving {ids : List String} : (agent, ids) ∈ s.leaving sha now ↔
    ∃ runtime, s.agents[agent]? = some runtime ∧ ids = s.prunable sha now agent runtime ∧ ids ≠ [] := by
  unfold leaving
  rw [List.mem_filter, List.mem_map]
  constructor
  · rintro ⟨⟨⟨agent', runtime⟩, hmem, heq⟩, hne⟩
    cases heq
    exact ⟨runtime, Table.mem_toList.mp hmem, rfl, by simpa using hne⟩
  · rintro ⟨runtime, hagent, rfl, hne⟩
    exact ⟨⟨(agent, runtime), Table.mem_toList.mpr hagent, rfl⟩, by simpa using hne⟩

theorem nodup_leaving : ((s.leaving sha now).map Prod.fst).Nodup := by
  unfold leaving
  have hfst : (s.agents.toList.map fun agent => (agent.1, s.prunable sha now agent.1 agent.2)).map Prod.fst =
      s.agents.toList.map Prod.fst := by
    rw [List.map_map]
    rfl
  exact (hfst ▸ Table.nodup_toList_fst s.agents).sublist (List.filter_sublist.map _)

theorem removeMessages_undo {l : List (String × List String)} (hnodup : (l.map Prod.fst).Nodup)
    (acc : Table String AgentRuntime × PruneUndo) :
    (l.foldl removeMessages acc).2.agents = acc.2.agents ++ l.filterMap (fun e => acc.1[e.1]?.map (e.1, ·)) ∧
    (l.foldl removeMessages acc).2.messageIds = acc.2.messageIds ++ l.flatMap fun e =>
      acc.1[e.1]?.elim [] fun runtime => (runtime.messages.filter fun x => e.2.contains x.id).map (·.id) := by
  induction l generalizing acc with
  | nil => simp
  | cons e l ih =>
    rw [List.map_cons, List.nodup_cons] at hnodup
    have hother : ∀ e' ∈ l, (removeMessages acc e).1[e'.1]? = acc.1[e'.1]? := by
      intro e' he'
      have hne : e.1 ≠ e'.1 := fun heq => hnodup.1 (heq ▸ List.mem_map_of_mem he')
      unfold removeMessages
      rcases acc.1[e.1]? with _ | runtime
      · rfl
      · show (acc.1.insert e.1 _)[e'.1]? = _
        rw [Table.getElem?_insert_eq, if_neg hne]
    have hagents : l.filterMap (fun e' => (removeMessages acc e).1[e'.1]?.map (e'.1, ·)) =
        l.filterMap fun e' => acc.1[e'.1]?.map (e'.1, ·) :=
      List.filterMap_congr fun e' he' => by rw [hother e' he']
    have hids : l.flatMap (fun e' => (removeMessages acc e).1[e'.1]?.elim [] fun runtime =>
        (runtime.messages.filter fun x => e'.2.contains x.id).map (·.id)) =
        l.flatMap fun e' => acc.1[e'.1]?.elim [] fun runtime =>
          (runtime.messages.filter fun x => e'.2.contains x.id).map (·.id) :=
      List.flatMap_congr fun e' he' => by rw [hother e' he']
    obtain ⟨ihagents, ihids⟩ := ih hnodup.2 (removeMessages acc e)
    rw [List.foldl_cons, ihagents, ihids, hagents, hids]
    rcases hruntime : acc.1[e.1]? with _ | runtime
    · have hstep : removeMessages acc e = acc := by
        unfold removeMessages
        rw [hruntime]
      rw [hstep, List.filterMap_cons_none (by rw [hruntime]; rfl), List.flatMap_cons, hruntime]
      exact ⟨rfl, rfl⟩
    · have hstep : (removeMessages acc e).2.agents = acc.2.agents ++ [(e.1, runtime)] ∧
          (removeMessages acc e).2.messageIds =
            acc.2.messageIds ++ (runtime.messages.filter fun x => e.2.contains x.id).map (·.id) := by
        unfold removeMessages
        rw [hruntime]
        unfold retainMessages
        simp
      rw [hstep.1, hstep.2, List.filterMap_cons_some (by rw [hruntime]; rfl), List.flatMap_cons, hruntime]
      exact ⟨by simp, by simp⟩

variable (sha s now) in
/-- The agents after the messages left, and what is remembered of it. -/
def removed : Table String AgentRuntime × PruneUndo := (s.leaving sha now).foldl removeMessages (s.agents, ⟨[], [], [], [], []⟩)

variable (sha s now) in
def marks : List (String × String × SessionPrunedThrough) :=
  s.agents.toList.flatMap fun agent => s.newestPruned sha now agent.1 agent.2

variable (sha s now) in
/-- A settled Telegram record whose reply leaves. -/
def losesReply (record : TelegramOutboundRecord) : Bool :=
  record.deliveryState.isSettled && !record.messagePruned && (s.removed sha now).2.messageIds.contains record.assistantMessageId

variable (sha s now) in
/-- A settled Discord record whose reply leaves. -/
def losesDiscordReply (record : DiscordOutboundRecord) : Bool :=
  record.deliveryState.isSettled && !record.messagePruned && (s.removed sha now).2.messageIds.contains record.assistantMessageId

variable (sha s now) in
def undoOf : PruneUndo :=
  { (s.removed sha now).2 with
    markedDiscordOutbound := (s.discordOutbound.toList.filter fun entry => s.losesDiscordReply sha now entry.2).map Prod.fst
    markedOutbound := (s.outbound.toList.filter fun entry => s.losesReply sha now entry.2).map Prod.fst
    sessions := ((s.marks sha now).foldl moveMark (s.sessions, [])).2 }

variable (sha s now) in
def prunedState : DaemonState :=
  { s with
    agents := (s.removed sha now).1
    discordOutbound := s.discordOutbound.map fun _ record =>
      if s.losesDiscordReply sha now record then { record with messagePruned := true } else record
    outbound := s.outbound.map fun _ record =>
      if s.losesReply sha now record then { record with messagePruned := true } else record
    sessions := ((s.marks sha now).foldl moveMark (s.sessions, [])).1 }

instance : Decidable s.Pruning := inferInstanceAs (Decidable (s.history.ephemeral = false ∧ s.history.reconciled = true))

theorem pruneHotTail_eq : s.pruneHotTail sha now =
    if s.Pruning ∧ s.leaving sha now ≠ [] then (some (s.undoOf sha now), s.prunedState sha now) else (none, s) := by
  by_cases hpruning : s.Pruning
  · have hon : ¬(s.history.ephemeral || !s.history.reconciled) = true := by simp [hpruning.1, hpruning.2]
    by_cases hempty : s.leaving sha now = []
    · rw [if_neg fun h => h.2 hempty]
      unfold pruneHotTail
      rw [if_neg hon]
      show (if (s.leaving sha now).isEmpty then (none, s) else (some (s.undoOf sha now), s.prunedState sha now)) = _
      rw [if_pos (List.isEmpty_iff.mpr hempty)]
    · rw [if_pos ⟨hpruning, hempty⟩]
      unfold pruneHotTail
      rw [if_neg hon]
      show (if (s.leaving sha now).isEmpty then (none, s) else (some (s.undoOf sha now), s.prunedState sha now)) = _
      rw [if_neg fun h => hempty (List.isEmpty_iff.mp h)]
  · rw [if_neg fun h => hpruning h.1, prune_off hpruning]

theorem prune_eq_some {undo : PruneUndo} {s' : DaemonState} (h : s.pruneHotTail sha now = (some undo, s')) :
    s.Pruning ∧ undo = s.undoOf sha now ∧ s' = s.prunedState sha now := by
  rw [pruneHotTail_eq] at h
  split_ifs at h with hon
  · cases h
    exact ⟨hon.1, rfl, rfl⟩
  · cases h

theorem prune_of_leaves (h : s.Leaves sha now agent id) :
    s.pruneHotTail sha now = (some (s.undoOf sha now), s.prunedState sha now) := by
  rw [pruneHotTail_eq, if_pos]
  refine ⟨h.1, ?_⟩
  obtain ⟨runtime, hagent, -⟩ := h.exists_message
  have hid := (leaves_iff h.1 hagent).mp h
  exact List.ne_nil_of_mem (mem_leaving.mpr ⟨runtime, hagent, rfl, List.ne_nil_of_mem hid⟩)

theorem mem_undo_agents (hpruning : s.Pruning) :
    (agent, runtime) ∈ (s.undoOf sha now).agents ↔ s.agents[agent]? = some runtime ∧ ∃ id, s.Leaves sha now agent id := by
  have hundo : (s.undoOf sha now).agents = (s.leaving sha now).filterMap fun e => s.agents[e.1]?.map (e.1, ·) := by
    show (s.removed sha now).2.agents = _
    unfold removed
    rw [(removeMessages_undo nodup_leaving _).1, List.nil_append]
  rw [hundo, List.mem_filterMap]
  constructor
  · rintro ⟨⟨agent', ids⟩, hmem, heq⟩
    obtain ⟨found, hfound, hpair⟩ := Option.map_eq_some_iff.mp heq
    cases hpair
    obtain ⟨runtime', hagent, rfl, hne⟩ := mem_leaving.mp hmem
    obtain ⟨id, hid⟩ := List.exists_mem_of_ne_nil _ hne
    exact ⟨hfound, id, (leaves_iff hpruning hagent).mpr hid⟩
  · rintro ⟨hagent, id, hid⟩
    have hin := (leaves_iff hpruning hagent).mp hid
    exact ⟨(agent, s.prunable sha now agent runtime), mem_leaving.mpr ⟨runtime, hagent, rfl, List.ne_nil_of_mem hin⟩,
      by rw [hagent]; rfl⟩

theorem mem_undo_ids (hpruning : s.Pruning) :
    id ∈ (s.removed sha now).2.messageIds ↔ ∃ agent, s.Leaves sha now agent id := by
  unfold removed
  rw [(removeMessages_undo nodup_leaving _).2, List.nil_append, List.mem_flatMap]
  constructor
  · rintro ⟨⟨agent, ids⟩, hmem, hid⟩
    obtain ⟨runtime, hagent, rfl, -⟩ := mem_leaving.mp hmem
    rw [hagent] at hid
    obtain ⟨x, hx, rfl⟩ := List.mem_map.mp hid
    exact ⟨agent, (leaves_iff hpruning hagent).mpr (List.contains_iff_mem.mp (List.mem_filter.mp hx).2)⟩
  · rintro ⟨agent, hleaves⟩
    obtain ⟨runtime, hagent, x, hx, rfl⟩ := hleaves.exists_message
    have hin := (leaves_iff hpruning hagent).mp hleaves
    refine ⟨(agent, s.prunable sha now agent runtime),
      mem_leaving.mpr ⟨runtime, hagent, rfl, List.ne_nil_of_mem hin⟩, ?_⟩
    rw [hagent]
    exact List.mem_map_of_mem (List.mem_filter.mpr ⟨hx, List.contains_iff_mem.mpr hin⟩)

/-! ## The messages put back -/

variable {host : Host} {undo : PruneUndo} {s' : DaemonState}

theorem recordEvent_messages (runtime : AgentRuntime) (event : EngineEvent) :
    (recordEvent runtime event).messages = runtime.messages := rfl

theorem fromSnapshot_messages (runtime : AgentRuntime) : (fromSnapshot runtime).messages = runtime.messages := by
  unfold fromSnapshot
  rfl

theorem restoredRuntime_messages (agent : String) (runtime : AgentRuntime) :
    (restoredRuntime host agent runtime).messages = runtime.messages := by
  unfold restoredRuntime
  dsimp only
  split_ifs
  · unfold markFailed
    rw [recordEvent_messages, recordEvent_messages, fromSnapshot_messages]
  · exact fromSnapshot_messages runtime

theorem getElem?_restoreAgent {l : List (String × AgentRuntime)} (hsame : ∀ r, (agent, r) ∈ l → r = runtime)
    (acc : Table String AgentRuntime × List String) :
    (l.foldl (restoreAgent host) acc).1[agent]? =
      if host.resolves agent = true ∧ (agent, runtime) ∈ l then some (restoredRuntime host agent runtime) else acc.1[agent]? := by
  induction l using List.reverseRecOn with
  | nil => simp
  | append_singleton l e ih =>
    have hrest := ih fun r hr => hsame r (List.mem_append_left _ hr)
    rw [List.foldl_append, List.foldl_cons, List.foldl_nil]
    generalize l.foldl (restoreAgent host) acc = mid at hrest ⊢
    unfold restoreAgent
    by_cases hagent : e.1 = agent
    · have he : e = (agent, runtime) := by
        have hrun := hsame e.2 (List.mem_append_right _ (List.mem_singleton.mpr (Prod.ext hagent.symm rfl)))
        exact Prod.ext hagent hrun
      rw [he]
      by_cases hresolves : host.resolves agent = true
      · rw [if_pos hresolves, if_pos ⟨hresolves, List.mem_append_right _ (List.mem_singleton_self _)⟩, Table.getElem?_insert_eq,
          if_pos rfl]
      · rw [if_neg hresolves, if_neg fun h => hresolves h.1]
        show mid.1[agent]? = acc.1[agent]?
        rw [hrest, if_neg fun h => hresolves h.1]
    · have hmem : (agent, runtime) ∈ l ++ [e] ↔ (agent, runtime) ∈ l := by
        rw [List.mem_append, List.mem_singleton]
        constructor
        · rintro (h | rfl)
          · exact h
          · exact absurd rfl hagent
        · exact Or.inl
      rw [if_congr (and_congr_right fun _ => hmem) rfl rfl, ← hrest]
      split_ifs
      · rw [Table.getElem?_insert_eq, if_neg hagent]
      · rfl

theorem mem_stillPruned {l : List (String × AgentRuntime)} (acc : Table String AgentRuntime × List String) :
    agent ∈ (l.foldl (restoreAgent host) acc).2 ↔ agent ∈ acc.2 ∨ (host.resolves agent = false ∧ ∃ r, (agent, r) ∈ l) := by
  induction l generalizing acc with
  | nil => simp
  | cons e l ih =>
    rw [List.foldl_cons, ih]
    unfold restoreAgent
    by_cases hresolves : host.resolves e.1 = true
    · rw [if_pos hresolves]
      refine or_congr_right (and_congr_right fun hnot => exists_congr fun r => ?_)
      rw [List.mem_cons]
      refine (or_iff_right ?_).symm
      rintro rfl
      rw [hnot] at hresolves
      cases hresolves
    · rw [if_neg hresolves, List.mem_append, List.mem_singleton, or_assoc]
      refine or_congr_right ?_
      constructor
      · rintro (rfl | ⟨hnot, r, hr⟩)
        · exact ⟨by simpa using hresolves, e.2, List.mem_cons_self⟩
        · exact ⟨hnot, r, List.mem_cons_of_mem _ hr⟩
      · rintro ⟨hnot, r, hr⟩
        rcases List.mem_cons.mp hr with rfl | hr
        · exact Or.inl rfl
        · exact Or.inr ⟨hnot, r, hr⟩

variable (host s sha now) in
def stillPruned : List String := ((s.undoOf sha now).agents.foldl (restoreAgent host) ((s.prunedState sha now).agents, [])).2

theorem mem_stillPruned_iff (hpruning : s.Pruning) :
    agent ∈ s.stillPruned sha now host ↔ host.resolves agent = false ∧ ∃ id, s.Leaves sha now agent id := by
  unfold stillPruned
  rw [mem_stillPruned]
  constructor
  · rintro (h | ⟨hnot, runtime, hr⟩)
    · cases h
    · exact ⟨hnot, ((mem_undo_agents hpruning).mp hr).2⟩
  · rintro ⟨hnot, id, hid⟩
    obtain ⟨runtime, hagent, -⟩ := hid.exists_message
    exact Or.inr ⟨hnot, runtime, (mem_undo_agents hpruning).mpr ⟨hagent, id, hid⟩⟩

theorem messagesOf_prunedState (hprune : s.pruneHotTail sha now = (some undo, s')) :
    s'.messagesOf agent = (s.messagesOf agent).filter fun x => !decide (x.id ∈ (s.agents[agent]?.elim [] (s.prunable sha now agent))) := by
  have hafter : (s.pruneHotTail sha now).2.agents[agent]? = _ := agents_after (prune_eq_some hprune).1 agent
  rw [hprune] at hafter
  unfold messagesOf
  rw [hafter]
  rcases s.agents[agent]? with _ | runtime
  · rfl
  · refine List.filter_congr fun x _ => congrArg (!·) ?_
    rw [Bool.eq_iff_iff, List.contains_iff_mem, decide_eq_true_iff]
    rfl

theorem messages_revert (hprune : s.pruneHotTail sha now = (some undo, s')) :
    (s'.revertPrune host undo).messagesOf agent = if host.resolves agent then s.messagesOf agent else s'.messagesOf agent := by
  obtain ⟨hpruning, rfl, rfl⟩ := prune_eq_some hprune
  have hfiltered := @messagesOf_prunedState sha s now agent _ _ hprune
  rcases hagent : s.agents[agent]? with _ | runtime
  · -- an agent that is not there is not put back either
    have hnone : ∀ r, (agent, r) ∉ (s.undoOf sha now).agents := by
      intro r hr
      have hfound := ((mem_undo_agents hpruning).mp hr).1
      rw [hagent] at hfound
      cases hfound
    have hmessages : s.messagesOf agent = [] := by
      unfold messagesOf
      rw [hagent]
      rfl
    have hsame : (s.prunedState sha now |>.revertPrune host (s.undoOf sha now)).agents[agent]? =
        (s.prunedState sha now).agents[agent]? := by
      have hfold := @getElem?_restoreAgent agent ⟨.idle, {}, [], none, [], 0, 0⟩ host _
        (fun r hr => absurd hr (hnone r)) ((s.prunedState sha now).agents, [])
      rw [if_neg fun h => hnone _ h.2] at hfold
      exact hfold
    rw [hmessages, List.filter_nil] at hfiltered
    rw [hmessages, hfiltered, ite_self]
    have heq : (s.prunedState sha now |>.revertPrune host (s.undoOf sha now)).messagesOf agent =
        (s.prunedState sha now).messagesOf agent := by
      unfold messagesOf
      rw [hsame]
    rw [heq, hfiltered]
  · have hone : ∀ r, (agent, r) ∈ (s.undoOf sha now).agents → r = runtime := by
      intro r hr
      have hfound := ((mem_undo_agents hpruning).mp hr).1
      rw [hagent] at hfound
      exact (Option.some.inj hfound).symm
    have hfold := @getElem?_restoreAgent agent runtime host _ hone ((s.prunedState sha now).agents, [])
    have hafter : (s.prunedState sha now |>.revertPrune host (s.undoOf sha now)).messagesOf agent =
        (((s.undoOf sha now).agents.foldl (restoreAgent host) ((s.prunedState sha now).agents, [])).1[agent]?.map
          (·.messages)).getD [] := rfl
    rw [hafter, hfold]
    by_cases hresolves : host.resolves agent = true
    · rw [if_pos hresolves]
      by_cases hin : (agent, runtime) ∈ (s.undoOf sha now).agents
      · rw [if_pos ⟨hresolves, hin⟩, messagesOf_of_agent hagent]
        exact restoredRuntime_messages agent runtime
      · rw [if_neg fun h => hin h.2]
        show (s.prunedState sha now).messagesOf agent = _
        rw [hfiltered, List.filter_eq_self]
        intro x hx
        rw [Bool.not_eq_true', decide_eq_false_iff_not, hagent]
        intro hid
        exact hin ((mem_undo_agents hpruning).mpr ⟨hagent, x.id, (leaves_iff hpruning hagent).mpr hid⟩)
    · rw [if_neg hresolves, if_neg fun h => hresolves h.1]
      rfl

/-! ## The records put back -/

theorem losesReply_iff (hpruning : s.Pruning) {record : TelegramOutboundRecord} : s.losesReply sha now record = true ↔
    record.deliveryState.isSettled = true ∧ record.messagePruned = false ∧
      ∃ agent, s.Leaves sha now agent record.assistantMessageId := by
  unfold losesReply
  rw [Bool.and_eq_true, Bool.and_eq_true, Bool.not_eq_true', List.contains_iff_mem, mem_undo_ids hpruning, and_assoc]

theorem mem_keys_filter {ν : Type} {t : Table String ν} {p : ν → Bool} {k : String} :
    k ∈ (t.toList.filter fun entry => p entry.2).map Prod.fst ↔ ∃ v, t[k]? = some v ∧ p v = true := by
  rw [List.mem_map]
  constructor
  · rintro ⟨⟨k', v⟩, hmem, rfl⟩
    obtain ⟨hin, hp⟩ := List.mem_filter.mp hmem
    exact ⟨v, Table.mem_toList.mp hin, hp⟩
  · rintro ⟨v, hk, hp⟩
    exact ⟨(k, v), List.mem_filter.mpr ⟨Table.mem_toList.mpr hk, hp⟩, rfl⟩

theorem outbound_revert (k : String) :
    ((s.prunedState sha now).revertPrune host (s.undoOf sha now)).outbound[k]? = s.outbound[k]?.map fun record =>
      if s.losesReply sha now record = true ∧ record.agentId ∈ s.stillPruned sha now host then { record with messagePruned := true }
      else record := by
  have hfold : ((s.prunedState sha now).revertPrune host (s.undoOf sha now)).outbound =
      Table.modifyAll (s.prunedState sha now).outbound (s.undoOf sha now).markedOutbound fun record =>
        if (s.stillPruned sha now host).contains record.agentId then record else { record with messagePruned := false } := rfl
  have hmarked : k ∈ (s.undoOf sha now).markedOutbound ↔
      ∃ record, s.outbound[k]? = some record ∧ s.losesReply sha now record = true := mem_keys_filter
  have hpruned : (s.prunedState sha now).outbound[k]? = s.outbound[k]?.map fun record =>
      if s.losesReply sha now record then { record with messagePruned := true } else record :=
    Std.ExtTreeMap.getElem?_map
  rw [hfold, Table.getElem?_modifyAll (fun record => by split_ifs <;> rfl), hpruned]
  rcases hrecord : s.outbound[k]? with _ | record
  · simp
  · rw [Option.map_some, Option.map_some, Option.map_some]
    by_cases hloses : s.losesReply sha now record = true
    · rw [if_pos (hmarked.mpr ⟨record, hrecord, hloses⟩), if_pos hloses]
      by_cases hstill : record.agentId ∈ s.stillPruned sha now host
      · rw [if_pos (List.contains_iff_mem.mpr hstill), if_pos ⟨hloses, hstill⟩]
      · rw [if_neg fun h => hstill (List.contains_iff_mem.mp h), if_neg fun h => hstill h.2]
        have hclear : record.messagePruned = false := by
          unfold losesReply at hloses
          rw [Bool.and_eq_true, Bool.and_eq_true, Bool.not_eq_true'] at hloses
          exact hloses.1.2
        rw [← hclear]
    · rw [if_neg fun h => hloses (by
          obtain ⟨found, hfound, hp⟩ := hmarked.mp h
          rw [hrecord] at hfound
          exact Option.some.inj hfound ▸ hp), if_neg hloses, if_neg fun h => hloses h.1]

theorem discordOutbound_revert :
    ((s.prunedState sha now).revertPrune host (s.undoOf sha now)).discordOutbound = s.discordOutbound := by
  refine Table.ext_getElem? fun k => ?_
  have hfold : ((s.prunedState sha now).revertPrune host (s.undoOf sha now)).discordOutbound =
      Table.modifyAll (s.prunedState sha now).discordOutbound (s.undoOf sha now).markedDiscordOutbound fun record =>
        { record with messagePruned := false } := rfl
  have hmarked : k ∈ (s.undoOf sha now).markedDiscordOutbound ↔
      ∃ record, s.discordOutbound[k]? = some record ∧ s.losesDiscordReply sha now record = true := mem_keys_filter
  have hpruned : (s.prunedState sha now).discordOutbound[k]? = s.discordOutbound[k]?.map fun record =>
      if s.losesDiscordReply sha now record then { record with messagePruned := true } else record :=
    Std.ExtTreeMap.getElem?_map
  obtain ⟨unmark, hunmark⟩ : ∃ unmark : DiscordOutboundRecord → DiscordOutboundRecord,
      unmark = fun record => { record with messagePruned := false } := ⟨_, rfl⟩
  have hidem : ∀ record, unmark (unmark record) = unmark record := by
    rw [hunmark]
    exact fun _ => rfl
  rw [hfold, ← hunmark, Table.getElem?_modifyAll hidem, hpruned, hunmark]
  rcases hrecord : s.discordOutbound[k]? with _ | record
  · simp
  · rw [Option.map_some, Option.map_some]
    by_cases hloses : s.losesDiscordReply sha now record = true
    · rw [if_pos (hmarked.mpr ⟨record, hrecord, hloses⟩), if_pos hloses]
      have hclear : record.messagePruned = false := by
        unfold losesDiscordReply at hloses
        rw [Bool.and_eq_true, Bool.and_eq_true, Bool.not_eq_true'] at hloses
        exact hloses.1.2
      rw [← hclear]
    · rw [if_neg fun h => hloses (by
          obtain ⟨found, hfound, hp⟩ := hmarked.mp h
          rw [hrecord] at hfound
          exact Option.some.inj hfound ▸ hp), if_neg hloses]

end DaemonState

/-! ## The marks put back -/

/-- A mark that is newer than another, if there is another. -/
def newer (through : SessionPrunedThrough) (previous : Option SessionPrunedThrough) : Bool :=
  previous.all fun previous => compare through.order previous.order == .gt

/-- What is remembered of one session: the marks that were moved from. -/
def moves (previous : Option SessionPrunedThrough) : List SessionPrunedThrough → List (Option SessionPrunedThrough)
  | [] => []
  | through :: rest => if newer through previous then previous :: moves (some through) rest else moves previous rest

def lastMark (previous : Option SessionPrunedThrough) (l : List SessionPrunedThrough) : Option SessionPrunedThrough :=
  l.foldl (fun previous through => if newer through previous then some through else previous) previous

/-- The first of the newer marks is the newest. -/
def NewestFirst (previous : Option SessionPrunedThrough) (l : List SessionPrunedThrough) : Prop :=
  ∀ first rest, l.filter (fun through => newer through previous) = first :: rest →
    ∀ through ∈ rest, newer through (some first) = false

theorem newer_trans {a b : SessionPrunedThrough} {c : Option SessionPrunedThrough} (hab : newer a (some b) = true)
    (hbc : newer b c = true) : newer a c = true := by
  unfold newer at *
  rcases c with _ | c
  · rfl
  · rw [Option.all_some, beq_iff_eq, Std.OrientedCmp.gt_iff_lt] at *
    exact Std.TransCmp.lt_trans hbc hab

theorem not_newer_self (a : SessionPrunedThrough) : newer a (some a) = false := by
  have hself : compare a.order a.order = .eq := Std.ReflCmp.compare_self
  unfold newer
  rw [Option.all_some, hself]
  rfl

theorem moves_eq_nil_iff {previous : Option SessionPrunedThrough} {l : List SessionPrunedThrough} :
    moves previous l = [] ↔ ∀ through ∈ l, newer through previous = false := by
  induction l generalizing previous with
  | nil => simp [moves]
  | cons through rest ih =>
    rw [List.forall_mem_cons]
    unfold moves
    by_cases hnewer : newer through previous = true
    · rw [if_pos hnewer, hnewer]
      simp
    · rw [if_neg hnewer, ih]
      have hnot : newer through previous = false := by simpa using hnewer
      exact (and_iff_right hnot).symm

theorem newer_of_mem_moves {previous : Option SessionPrunedThrough} {through : SessionPrunedThrough}
    (hnewer : newer through previous = true) (l : List SessionPrunedThrough) :
    ∀ q ∈ moves (some through) l, ∃ t, q = some t ∧ newer t previous = true := by
  induction l generalizing through with
  | nil => simp [moves]
  | cons next rest ih =>
    intro q hq
    unfold moves at hq
    by_cases hnext : newer next (some through) = true
    · rw [if_pos hnext] at hq
      rcases List.mem_cons.mp hq with rfl | hq
      · exact ⟨through, rfl, hnewer⟩
      · exact ih (newer_trans hnext hnewer) q hq
    · rw [if_neg hnext] at hq
      exact ih hnewer q hq

theorem moves_back_iff {previous : Option SessionPrunedThrough} {l : List SessionPrunedThrough} :
    (moves previous l).getLast?.getD (lastMark previous l) = previous ↔ NewestFirst previous l := by
  induction l with
  | nil =>
    have hnone : NewestFirst previous [] := by
      intro first rest h
      cases h
    exact iff_of_true rfl hnone
  | cons through rest ih =>
    by_cases hnewer : newer through previous = true
    · have hmoves : moves previous (through :: rest) = previous :: moves (some through) rest := by
        rw [moves, if_pos hnewer]
      have hfilter : (through :: rest).filter (fun t => newer t previous) =
          through :: rest.filter (fun t => newer t previous) := List.filter_cons_of_pos hnewer
      have hfirst : NewestFirst previous (through :: rest) ↔ ∀ t ∈ rest, newer t (some through) = false := by
        unfold NewestFirst
        rw [hfilter]
        constructor
        · intro h t ht
          by_contra hnot
          rw [Bool.not_eq_false] at hnot
          have hin : t ∈ rest.filter fun t => newer t previous := List.mem_filter.mpr ⟨ht, newer_trans hnot hnewer⟩
          rw [h through _ rfl t hin] at hnot
          cases hnot
        · intro h first others heq t ht
          cases heq
          exact h t (List.mem_of_mem_filter ht)
      rw [hfirst, ← moves_eq_nil_iff, hmoves]
      rcases hlater : moves (some through) rest with _ | ⟨q, qs⟩
      · exact iff_of_true rfl rfl
      · rw [List.getLast?_cons_cons, List.getLast?_eq_some_getLast (List.cons_ne_nil q qs), Option.getD_some]
        refine iff_of_false ?_ (List.cons_ne_nil q qs)
        have hmem : (q :: qs).getLast (List.cons_ne_nil q qs) ∈ moves (some through) rest := by
          rw [hlater]
          exact List.getLast_mem _
        obtain ⟨t, ht, hnewer'⟩ := newer_of_mem_moves hnewer rest _ hmem
        rw [ht]
        rintro rfl
        rw [not_newer_self] at hnewer'
        cases hnewer'
    · have hnot : newer through previous = false := by simpa using hnewer
      have hmoves : moves previous (through :: rest) = moves previous rest := by rw [moves, if_neg hnewer]
      have hlast : lastMark previous (through :: rest) = lastMark previous rest := by
        unfold lastMark
        rw [List.foldl_cons, if_neg hnewer]
      have hfirst : NewestFirst previous (through :: rest) ↔ NewestFirst previous rest := by
        have hfilter : (through :: rest).filter (fun t => newer t previous) = rest.filter fun t => newer t previous :=
          List.filter_cons_of_neg hnewer
        unfold NewestFirst
        rw [hfilter]
      rw [hmoves, hlast, hfirst, ih]

def ofSession {α : Type} (key : String × String) (l : List (String × String × α)) : List α :=
  (l.filter fun e => decide ((e.1, e.2.1) = key)).map fun e => e.2.2

theorem ofSession_append {α : Type} (key : String × String) (l l' : List (String × String × α)) :
    ofSession key (l ++ l') = ofSession key l ++ ofSession key l' := by
  unfold ofSession
  rw [List.filter_append, List.map_append]

theorem ofSession_singleton {α : Type} {key : String × String} {e : String × String × α} :
    ofSession key [e] = if (e.1, e.2.1) = key then [e.2.2] else [] := by
  unfold ofSession
  rw [List.filter_singleton]
  by_cases hkey : (e.1, e.2.1) = key
  · rw [if_pos hkey, decide_eq_true hkey]
    rfl
  · rw [if_neg hkey, decide_eq_false hkey]
    rfl

theorem lastMark_append (previous : Option SessionPrunedThrough) (l l' : List SessionPrunedThrough) :
    lastMark previous (l ++ l') = lastMark (lastMark previous l) l' := List.foldl_append

theorem moves_append (previous : Option SessionPrunedThrough) (l l' : List SessionPrunedThrough) :
    moves previous (l ++ l') = moves previous l ++ moves (lastMark previous l) l' := by
  induction l generalizing previous with
  | nil => rfl
  | cons through l ih =>
    rw [List.cons_append, moves, moves]
    unfold lastMark
    rw [List.foldl_cons]
    by_cases hnewer : newer through previous = true
    · rw [if_pos hnewer, if_pos hnewer, if_pos hnewer, ih, List.cons_append]
      rfl
    · rw [if_neg hnewer, if_neg hnewer, if_neg hnewer, ih]
      rfl

theorem foldl_moveMark_eq (sessions : Table (String × String) SessionRecord) (l : List (String × String × SessionPrunedThrough))
    (key : String × String) :
    ((l.foldl DaemonState.moveMark (sessions, [])).1[key]? = sessions[key]?.map fun record =>
      { record with prunedThrough := lastMark record.prunedThrough (ofSession key l) }) ∧
    ofSession key (l.foldl DaemonState.moveMark (sessions, [])).2 =
      sessions[key]?.elim [] fun record => moves record.prunedThrough (ofSession key l) := by
  induction l using List.reverseRecOn with
  | nil =>
    rw [List.foldl_nil]
    rcases sessions[key]? with _ | record
    · exact ⟨rfl, rfl⟩
    · exact ⟨rfl, rfl⟩
  | append_singleton l e ih =>
    rw [List.foldl_append, List.foldl_cons, List.foldl_nil, ofSession_append]
    generalize l.foldl DaemonState.moveMark (sessions, []) = mid at ih ⊢
    obtain ⟨hrecord, hmoves⟩ := ih
    by_cases hkey : (e.1, e.2.1) = key
    · rw [ofSession_singleton, if_pos hkey]
      rcases hsession : sessions[key]? with _ | record
      · rw [hsession] at hrecord hmoves
        have hstep : DaemonState.moveMark mid e = mid := by
          unfold DaemonState.moveMark
          rw [hkey, hrecord]
          rfl
        rw [hstep]
        exact ⟨hrecord, hmoves⟩
      · rw [hsession, Option.map_some] at hrecord
        rw [hsession, Option.elim_some] at hmoves
        rw [Option.map_some, Option.elim_some, lastMark_append, moves_append]
        unfold DaemonState.moveMark
        rw [hkey, hrecord]
        show (if newer e.2.2 (lastMark record.prunedThrough (ofSession key l)) then _ else mid).1[key]? = _ ∧
          ofSession key (if newer e.2.2 (lastMark record.prunedThrough (ofSession key l)) then _ else mid).2 = _
        have hlast : lastMark (lastMark record.prunedThrough (ofSession key l)) [e.2.2] =
          if newer e.2.2 (lastMark record.prunedThrough (ofSession key l)) then some e.2.2
          else lastMark record.prunedThrough (ofSession key l) := rfl
        have hone : moves (lastMark record.prunedThrough (ofSession key l)) [e.2.2] =
          if newer e.2.2 (lastMark record.prunedThrough (ofSession key l)) then [lastMark record.prunedThrough (ofSession key l)]
          else [] := rfl
        by_cases hnewer : newer e.2.2 (lastMark record.prunedThrough (ofSession key l)) = true
        · rw [hlast, hone, if_pos hnewer, if_pos hnewer, if_pos hnewer]
          refine ⟨?_, ?_⟩
          · rw [Table.getElem?_insert_eq, if_pos rfl]
          · rw [ofSession_append, hmoves, ofSession_singleton, if_pos hkey]
        · rw [hlast, hone, if_neg hnewer, if_neg hnewer, if_neg hnewer, List.append_nil]
          exact ⟨hrecord, hmoves⟩
    · rw [ofSession_singleton, if_neg hkey, List.append_nil]
      unfold DaemonState.moveMark
      rcases mid.1[(e.1, e.2.1)]? with _ | other
      · exact ⟨hrecord, hmoves⟩
      · simp only
        split_ifs
        · rw [Table.getElem?_insert_eq, if_neg hkey, ofSession_append, ofSession_singleton, if_neg hkey, List.append_nil]
          exact ⟨hrecord, hmoves⟩
        · exact ⟨hrecord, hmoves⟩

theorem foldl_moveBack_eq (stillPruned : List String) (sessions : Table (String × String) SessionRecord)
    (l : List (String × String × Option SessionPrunedThrough)) (key : String × String) :
    (l.foldl (moveBack stillPruned) sessions)[key]? = if key.1 ∈ stillPruned then sessions[key]? else
      sessions[key]?.map fun record =>
        { record with prunedThrough := (ofSession key l).getLast?.getD record.prunedThrough } := by
  induction l using List.reverseRecOn with
  | nil =>
    rw [List.foldl_nil]
    show sessions[key]? = if key.1 ∈ stillPruned then sessions[key]? else sessions[key]?.map fun record => record
    rw [Option.map_id', ite_self]
  | append_singleton l e ih =>
    rw [List.foldl_append, List.foldl_cons, List.foldl_nil, ofSession_append, ofSession_singleton]
    generalize l.foldl (moveBack stillPruned) sessions = mid at ih ⊢
    unfold moveBack
    by_cases hkey : (e.1, e.2.1) = key
    · have hagent : e.1 = key.1 := congrArg Prod.fst hkey
      rw [if_pos hkey, List.getLast?_concat, hagent]
      by_cases hstill : key.1 ∈ stillPruned
      · rw [if_pos (List.contains_iff_mem.mpr hstill), ih, if_pos hstill, if_pos hstill]
      · have hpair : (key.1, e.2.1) = key := by
          rw [← hkey]
        rw [if_neg fun h => hstill (List.contains_iff_mem.mp h), if_neg hstill, hpair, Table.getElem?_modify_eq, if_pos rfl, ih,
          if_neg hstill, Option.map_map]
        rfl
    · rw [if_neg hkey, List.append_nil, ← ih]
      split_ifs
      · rfl
      · rw [Table.getElem?_modify_eq, if_neg hkey]

/-! ## The revert as a whole -/

namespace DaemonState

variable {sha : String → String} {s : DaemonState} {now : ℕ} {host : Host} {agent : String} {key : String × String}

variable (sha s now key) in
/-- The marks that the rooms of a session give, in the order of the walk. -/
def marksOf : List SessionPrunedThrough := ofSession key (s.marks sha now)

theorem marks_prunedState : (s.prunedState sha now).sessions[key]? = s.sessions[key]?.map fun record =>
    { record with prunedThrough := lastMark record.prunedThrough (s.marksOf sha now key) } :=
  (foldl_moveMark_eq s.sessions (s.marks sha now) key).1

theorem sessions_revert : ((s.prunedState sha now).revertPrune host (s.undoOf sha now)).sessions[key]? =
    if key.1 ∈ s.stillPruned sha now host then (s.prunedState sha now).sessions[key]? else s.sessions[key]?.map fun record =>
      { record with
        prunedThrough := (moves record.prunedThrough (s.marksOf sha now key)).getLast?.getD
          (lastMark record.prunedThrough (s.marksOf sha now key)) } := by
  have hfold : ((s.prunedState sha now).revertPrune host (s.undoOf sha now)).sessions =
      (s.undoOf sha now).sessions.foldl (moveBack (s.stillPruned sha now host)) (s.prunedState sha now).sessions := rfl
  have hjournal : ofSession key (s.undoOf sha now).sessions =
      s.sessions[key]?.elim [] fun record => moves record.prunedThrough (s.marksOf sha now key) :=
    (foldl_moveMark_eq s.sessions (s.marks sha now) key).2
  rw [hfold, foldl_moveBack_eq, hjournal]
  by_cases hstill : key.1 ∈ s.stillPruned sha now host
  · rw [if_pos hstill, if_pos hstill]
  · rw [if_neg hstill, if_neg hstill, marks_prunedState]
    rcases s.sessions[key]? with _ | record
    · rfl
    · rfl

theorem exists_leaves_of_marksOf (hpruning : s.Pruning) (h : s.marksOf sha now key ≠ []) :
    ∃ id, s.Leaves sha now key.1 id := by
  obtain ⟨through, hthrough⟩ := List.exists_mem_of_ne_nil _ h
  unfold marksOf ofSession at hthrough
  obtain ⟨e, he, -⟩ := List.mem_map.mp hthrough
  obtain ⟨hmem, hkey⟩ := List.mem_filter.mp he
  rw [decide_eq_true_eq] at hkey
  unfold marks at hmem
  obtain ⟨⟨agent, runtime⟩, hagent, hnewest⟩ := List.mem_flatMap.mp hmem
  have hruntime := Table.mem_toList.mp hagent
  unfold newestPruned at hnewest
  obtain ⟨⟨roomId, messages⟩, hroom, hmark⟩ := List.mem_flatMap.mp hnewest
  obtain ⟨mark, hsome, rfl⟩ := List.mem_map.mp hmark
  obtain ⟨rfl, -, hidle⟩ := mem_idleRooms.mp hroom
  -- The mark is that of a message before the window.
  rw [Option.mem_toList] at hsome
  unfold pruneRoom at hsome
  obtain ⟨x, hx, -⟩ := Option.map_eq_some_iff.mp hsome
  have hin := List.mem_reverse.mp (List.mem_of_find?_eq_some hx)
  rw [← hkey]
  refine ⟨x.id, hpruning, roomId, hidle, x, List.mem_append_left _ ?_, rfl⟩
  rw [messagesOf_of_agent hruntime]
  exact hin

theorem leaves_of_gone {id : String} {undo : PruneUndo} {s' : DaemonState}
    (hprune : s.pruneHotTail sha now = (some undo, s')) {x : Message} (hx : x ∈ s.messagesOf agent) (hid : x.id = id)
    (hgone : x ∉ (s'.revertPrune host undo).messagesOf agent) :
    s.Leaves sha now agent id ∧ host.resolves agent = false := by
  rw [messages_revert hprune] at hgone
  by_cases hresolves : host.resolves agent = true
  · rw [if_pos hresolves] at hgone
    exact absurd hx hgone
  · rw [if_neg hresolves, messagesOf_prunedState hprune, List.mem_filter, not_and] at hgone
    have hpruned := hgone hx
    rw [Bool.not_eq_true', Bool.not_eq_false, decide_eq_true_eq, hid] at hpruned
    refine ⟨?_, by simpa using hresolves⟩
    rcases hagent : s.agents[agent]? with _ | runtime
    · rw [hagent] at hpruned
      cases hpruned
    · rw [hagent] at hpruned
      exact (leaves_iff (prune_eq_some hprune).1 hagent).mpr hpruned

theorem gone_of_leaves {id : String} (hresolves : host.resolves agent = false) (hleaves : s.Leaves sha now agent id) :
    ∀ x ∈ ((s.prunedState sha now).revertPrune host (s.undoOf sha now)).messagesOf agent, x.id ≠ id := by
  have hprune := prune_of_leaves hleaves
  obtain ⟨runtime, hagent, -⟩ := hleaves.exists_message
  have hin := (leaves_iff hleaves.1 hagent).mp hleaves
  rw [messages_revert hprune, if_neg (by rw [hresolves]; exact Bool.false_ne_true), messagesOf_prunedState hprune]
  intro x hx hid
  have hkept := (List.mem_filter.mp hx).2
  rw [Bool.not_eq_true', decide_eq_false_iff_not, hagent, hid] at hkept
  exact hkept hin

variable (sha s now host) in
/-- A pass whose save failed leaves a control plane that can be saved. -/
structure RevertSound : Prop where
  restored : ∀ undo s', s.pruneHotTail sha now = (some undo, s') → (∀ e ∈ undo.agents, host.resolves e.1 = true) →
    (∀ agent, (s'.revertPrune host undo).messagesOf agent = s.messagesOf agent) ∧
    (s'.revertPrune host undo).outbound = s.outbound ∧ (s'.revertPrune host undo).discordOutbound = s.discordOutbound ∧
    (s'.revertPrune host undo).sessions = s.sessions
  telegram : ∀ undo s', s.pruneHotTail sha now = (some undo, s') →
    ∀ (k : String) (record : TelegramOutboundRecord), (s'.revertPrune host undo).outbound[k]? = some record →
      record.deliveryState.isSettled = true → (∃ x ∈ s.messagesOf record.agentId, x.id = record.assistantMessageId) →
      (∀ x ∈ (s'.revertPrune host undo).messagesOf record.agentId, x.id ≠ record.assistantMessageId) →
      record.messagePruned = true
  discord : ∀ undo s', s.pruneHotTail sha now = (some undo, s') →
    ∀ (k : String) (record : DiscordOutboundRecord), (s'.revertPrune host undo).discordOutbound[k]? = some record →
      record.deliveryState.isSettled = true → (∃ x ∈ s.messagesOf record.agentId, x.id = record.assistantMessageId) →
      (∀ x ∈ (s'.revertPrune host undo).messagesOf record.agentId, x.id ≠ record.assistantMessageId) →
      record.messagePruned = true
  marks : ∀ undo s', s.pruneHotTail sha now = (some undo, s') → ∀ key : String × String,
    (∃ x ∈ s.messagesOf key.1, sessionIdForRoom sha x.roomId = key.2 ∧ x ∉ (s'.revertPrune host undo).messagesOf key.1) →
      (s'.revertPrune host undo).sessions[key]? = s'.sessions[key]?

theorem telegram_marked {undo : PruneUndo} {s' : DaemonState} (hprune : s.pruneHotTail sha now = (some undo, s'))
    (k : String) (record : TelegramOutboundRecord) (hrecord : (s'.revertPrune host undo).outbound[k]? = some record)
    (hsettled : record.deliveryState.isSettled = true) (hhot : ∃ x ∈ s.messagesOf record.agentId, x.id = record.assistantMessageId)
    (hgone : ∀ x ∈ (s'.revertPrune host undo).messagesOf record.agentId, x.id ≠ record.assistantMessageId) :
    record.messagePruned = true := by
  obtain ⟨x, hx, hid⟩ := hhot
  obtain ⟨hleaves, hresolves⟩ := leaves_of_gone hprune hx hid fun h => hgone x h hid
  obtain ⟨hpruning, rfl, rfl⟩ := prune_eq_some hprune
  have hstill : record.agentId ∈ s.stillPruned sha now host := (mem_stillPruned_iff hpruning).mpr ⟨hresolves, _, hleaves⟩
  rw [outbound_revert] at hrecord
  obtain ⟨old, -, hold⟩ := Option.map_eq_some_iff.mp hrecord
  by_cases hloses : s.losesReply sha now old = true ∧ old.agentId ∈ s.stillPruned sha now host
  · rw [if_pos hloses] at hold
    rw [← hold]
  · rw [if_neg hloses] at hold
    rw [hold] at hloses
    by_contra hnot
    exact hloses ⟨(losesReply_iff hpruning).mpr ⟨hsettled, by simpa using hnot, record.agentId, hleaves⟩, hstill⟩

/-- The control plane of the first day, with the Discord record of the silent reply. -/
def firstDiscordDay : DaemonState :=
  { firstDay with
    discordOutbound := (∅ : Table String DiscordOutboundRecord).insert "record" ⟨"agent", "reply", .suppressed, false⟩ }

/-- A host that knows no tool and gives every event the same id. -/
def toolless : Host where
  resolves := fun _ => false
  event := fun agentId eventType data => ⟨"event", eventType, some agentId, 0, data⟩

end DaemonState

end AnimaCore.HotTail
