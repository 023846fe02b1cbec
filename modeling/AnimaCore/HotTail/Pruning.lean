import AnimaCore.HotTail.Rooms

/-!
# AnimaCore.HotTail.Pruning — what one pass does to the control plane

* `messages_after`: a pass removes messages room by room, from rooms without an active run.
* `MayLeave`: what the pass asks of a message before it removes it; `removed_iff`.
* `Keeps s now`: the pass keeps what it must, and `keeps_iff` when it does.
-/

namespace AnimaCore.HotTail

open Lib RunDelta Runs AnimaMemory

def room (messages : List Message) (roomId : String) : List Message :=
  messages.filter fun x => decide (x.roomId = roomId)

theorem mem_room {messages : List Message} {roomId : String} {x : Message} :
    x ∈ room messages roomId ↔ x ∈ messages ∧ x.roomId = roomId := by
  unfold room
  rw [List.mem_filter, decide_eq_true_eq]

theorem Distinct.room {messages : List Message} (h : Distinct messages) (roomId : String) :
    Distinct (room messages roomId) := h.sublist List.filter_sublist

theorem getElem?_rooms (messages : List Message) (roomId : String) :
    (rooms messages)[roomId]? = if room messages roomId = [] then none else some (room messages roomId) := by
  unfold rooms
  rw [Table.getElem?_foldl_upsert (fun x : Message => x.roomId) (fun _ => []) (fun l x => l ++ [x])]
  have hfold : ∀ (l front : List Message), front ≠ [] →
      l.foldl (fun o x => some (o.getD [] ++ [x])) (some front) = some (front ++ l) := by
    intro l
    induction l with
    | nil => simp
    | cons x l ih =>
      intro front _
      rw [List.foldl_cons, Option.getD_some, ih _ (by simp)]
      simp
  show (room messages roomId).foldl (fun o x => some (o.getD [] ++ [x])) (∅ : Table String (List Message))[roomId]? = _
  rcases room messages roomId with _ | ⟨x, l⟩
  · simp
  · have hempty : (∅ : Table String (List Message))[roomId]? = none := by simp
    rw [List.foldl_cons, hempty, Option.getD_none, List.nil_append, hfold l [x] (by simp)]
    simp

namespace DaemonState

variable {sha : String → String} {s : DaemonState} {now : ℕ} {agentId : String} {runtime : AgentRuntime}

variable (sha s agentId) in
def Idle (roomId : String) : Prop := (agentId, sessionIdForRoom sha roomId) ∉ activeSessions s.runs

instance (roomId : String) : Decidable (s.Idle sha agentId roomId) :=
  inferInstanceAs (Decidable ((agentId, sessionIdForRoom sha roomId) ∉ activeSessions s.runs))

variable (s) in
/-- There is a durable store, and it is known what it holds. -/
def Pruning : Prop := s.history.ephemeral = false ∧ s.history.reconciled = true

theorem mem_idleRooms {roomId : String} {messages : List Message} :
    (roomId, messages) ∈ s.idleRooms sha agentId runtime ↔
      messages = room runtime.messages roomId ∧ messages ≠ [] ∧ s.Idle sha agentId roomId := by
  unfold idleRooms Idle
  rw [List.mem_filter, Table.mem_toList, getElem?_rooms]
  constructor
  · rintro ⟨hroom, hidle⟩
    split_ifs at hroom with hempty
    obtain rfl := Option.some.inj hroom
    exact ⟨rfl, hempty, by simpa using hidle⟩
  · rintro ⟨rfl, hne, hidle⟩
    rw [if_neg hne]
    exact ⟨rfl, by simpa using hidle⟩

theorem mem_agent_prunable (hdistinct : Distinct runtime.messages) {x : Message} (hx : x ∈ runtime.messages) :
    x.id ∈ s.prunable sha now agentId runtime ↔
      s.Idle sha agentId x.roomId ∧
        (pruneRoom (s.eligible now) (room runtime.messages x.roomId)).prunable.contains x.id = true := by
  unfold prunable
  rw [List.mem_flatMap]
  constructor
  · rintro ⟨⟨roomId, messages⟩, hroom, hid⟩
    obtain ⟨rfl, -, hidle⟩ := mem_idleRooms.mp hroom
    -- The id is that of a message in this room, and so this is the room of the message.
    have hmem : ∃ y ∈ room runtime.messages roomId, y.id = x.id := by
      unfold pruneRoom at hid
      obtain ⟨y, hy, hyid⟩ := List.mem_map.mp hid
      refine ⟨y, ?_, hyid⟩
      rcases List.mem_append.mp hy with hwindow | hsilent
      · rw [roomPrunable_eq] at hwindow
        exact outside_sub (List.mem_of_mem_filter hwindow)
      · exact (silentPrunable_sub (hdistinct.room roomId) hsilent).1
    obtain ⟨y, hy, hyid⟩ := hmem
    obtain ⟨hin, hroomy⟩ := mem_room.mp hy
    obtain rfl := hdistinct.inj hin hx hyid
    rw [hroomy]
    exact ⟨hidle, List.contains_iff_mem.mpr hid⟩
  · rintro ⟨hidle, hid⟩
    refine ⟨(x.roomId, room runtime.messages x.roomId), mem_idleRooms.mpr ⟨rfl, ?_, hidle⟩, List.contains_iff_mem.mp hid⟩
    exact List.ne_nil_of_mem (mem_room.mpr ⟨hx, rfl⟩)

/-! ## The loops -/

theorem foldl_removeMessages (l : List (String × List String)) (acc : Table String AgentRuntime × PruneUndo) (agent : String) :
    (l.foldl removeMessages acc).1[agent]? = acc.1[agent]?.map fun runtime =>
      { runtime with messages := runtime.messages.filter fun x => !(l.any fun e => e.1 == agent && e.2.contains x.id) } := by
  induction l generalizing acc with
  | nil => simp
  | cons e l ih =>
    rw [List.foldl_cons, ih]
    rcases hruntime : acc.1[e.1]? with _ | runtime
    · have hstep : removeMessages acc e = acc := by
        unfold removeMessages
        rw [hruntime]
      rw [hstep]
      by_cases hagent : e.1 = agent
      · rw [← hagent, hruntime]
        rfl
      · have hother : (e.1 == agent) = false := by simpa using hagent
        simp only [List.any_cons, hother, Bool.false_and, Bool.false_or]
    · have hstep : (removeMessages acc e).1 =
          acc.1.insert e.1 (retainMessages runtime fun message => !e.2.contains message.id).1 := by
        unfold removeMessages
        rw [hruntime]
      rw [hstep, Table.getElem?_insert_eq]
      by_cases hagent : e.1 = agent
      · rw [if_pos hagent, ← hagent, hruntime]
        simp only [Option.map_some, retainMessages, List.filter_filter, List.any_cons, beq_self_eq_true, Bool.true_and,
          Bool.not_or]
        refine congrArg some (congrArg (fun l => { runtime with messages := l }) (List.filter_congr fun x _ => ?_))
        exact Bool.and_comm _ _
      · have hother : (e.1 == agent) = false := by simpa using hagent
        rw [if_neg hagent]
        simp only [List.any_cons, hother, Bool.false_and, Bool.false_or]

theorem agents_after (hpruning : s.Pruning) (agent : String) :
    (s.pruneHotTail sha now).2.agents[agent]? = s.agents[agent]?.map fun runtime =>
      { runtime with messages := runtime.messages.filter fun x => !(s.prunable sha now agent runtime).contains x.id } := by
  obtain ⟨hdurable, hreconciled⟩ := hpruning
  -- What the list of the agents says of one agent.
  have hany : ∀ (runtime : AgentRuntime) (x : Message), s.agents[agent]? = some runtime →
      ((s.agents.toList.map fun a => (a.1, s.prunable sha now a.1 a.2)).filter fun a => !a.2.isEmpty).any
        (fun e => e.1 == agent && e.2.contains x.id) = (s.prunable sha now agent runtime).contains x.id := by
    intro runtime x hruntime
    rw [Bool.eq_iff_iff, List.any_eq_true]
    constructor
    · rintro ⟨e, he, hid⟩
      obtain ⟨a, ha, rfl⟩ := List.mem_map.mp (List.mem_of_mem_filter he)
      rw [Bool.and_eq_true, beq_iff_eq] at hid
      have hat := Table.mem_toList.mp ha
      obtain ⟨hname, hcontains⟩ := hid
      simp only at hname hcontains
      rw [hname, hruntime] at hat
      rw [hname, ← Option.some.inj hat] at hcontains
      exact hcontains
    · intro hid
      refine ⟨(agent, s.prunable sha now agent runtime), List.mem_filter.mpr ⟨?_, ?_⟩, ?_⟩
      · exact List.mem_map.mpr ⟨(agent, runtime), Table.mem_toList.mpr hruntime, rfl⟩
      · have hne := List.ne_nil_of_mem (List.contains_iff_mem.mp hid)
        simpa using hne
      · rw [Bool.and_eq_true]
        exact ⟨beq_self_eq_true agent, hid⟩
  have hsame : ((s.agents.toList.map fun a => (a.1, s.prunable sha now a.1 a.2)).filter fun a => !a.2.isEmpty).foldl
      removeMessages (s.agents, ⟨[], [], [], [], []⟩) |>.1[agent]? = s.agents[agent]?.map fun runtime =>
      { runtime with messages := runtime.messages.filter fun x => !(s.prunable sha now agent runtime).contains x.id } := by
    rw [foldl_removeMessages]
    rcases hruntime : s.agents[agent]? with _ | runtime
    · rfl
    · refine congrArg some (congrArg (fun l => { runtime with messages := l }) (List.filter_congr fun x _ => ?_))
      rw [hany runtime x hruntime]
  rw [← hsame]
  unfold pruneHotTail
  rw [if_neg (by simp [hdurable, hreconciled])]
  simp only
  split_ifs with hempty
  · rw [List.isEmpty_iff.mp hempty]
    rfl
  · rfl

theorem prune_off (h : ¬ s.Pruning) : s.pruneHotTail sha now = (none, s) := by
  unfold pruneHotTail
  rw [if_pos]
  unfold Pruning at h
  rw [not_and_or, Bool.not_eq_false, Bool.not_eq_true] at h
  rcases h with h | h
  · rw [h, Bool.true_or]
  · rw [h]
    exact Bool.or_true _

variable (s) in
def messagesOf (agent : String) : List Message := (s.agents[agent]?.map (·.messages)).getD []

variable (s) in
/-- The ids of the messages of each agent are distinct. -/
def DistinctIds : Prop := ∀ agent, Distinct (s.messagesOf agent)

theorem messagesOf_of_agent {agent : String} (h : s.agents[agent]? = some runtime) : s.messagesOf agent = runtime.messages := by
  unfold messagesOf
  rw [h]
  rfl

variable (sha s now) in
theorem messagesOf_sublist (agent : String) :
    ((s.pruneHotTail sha now).2.messagesOf agent).Sublist (s.messagesOf agent) := by
  by_cases hpruning : s.Pruning
  · unfold messagesOf
    rw [agents_after hpruning]
    rcases s.agents[agent]? with _ | runtime
    · exact List.Sublist.refl _
    · exact List.filter_sublist
  · rw [prune_off hpruning]

variable (sha now) in
theorem room_after (hpruning : s.Pruning) (hdistinct : s.DistinctIds) (agent roomId : String) :
    room ((s.pruneHotTail sha now).2.messagesOf agent) roomId =
      (room (s.messagesOf agent) roomId).filter fun x => !(decide (s.Idle sha agent roomId) &&
        (pruneRoom (s.eligible now) (room (s.messagesOf agent) roomId)).prunable.contains x.id) := by
  rcases hagent : s.agents[agent]? with _ | runtime
  · have hnone : s.messagesOf agent = [] := by
      unfold messagesOf
      rw [hagent]
      rfl
    have hafter : (s.pruneHotTail sha now).2.messagesOf agent = [] := by
      have := messagesOf_sublist sha s now agent
      rw [hnone] at this
      exact List.sublist_nil.mp this
    rw [hnone, hafter]
    rfl
  · have hmessages := messagesOf_of_agent hagent
    have hids : Distinct runtime.messages := hmessages ▸ hdistinct agent
    have hafter : (s.pruneHotTail sha now).2.messagesOf agent =
        runtime.messages.filter fun x => !(s.prunable sha now agent runtime).contains x.id := by
      unfold messagesOf
      rw [agents_after hpruning, hagent]
      rfl
    rw [hafter, hmessages]
    unfold room
    rw [List.filter_comm]
    refine List.filter_congr fun x hx => ?_
    obtain ⟨hmem, hroom⟩ := mem_room.mp hx
    refine congrArg (!·) (Bool.eq_iff_iff.mpr ?_)
    rw [List.contains_iff_mem, mem_agent_prunable hids hmem, hroom, Bool.and_eq_true, decide_eq_true_eq]
    rfl

/-! ## What stays the same -/

variable (s) in
def Referenced (id : String) : Prop :=
  (∃ (k : String) (record : TelegramOutboundRecord), s.outbound[k]? = some record ∧ record.deliveryState.isSettled = false ∧
    record.assistantMessageId = id) ∨
  ∃ (k : String) (record : DiscordOutboundRecord), s.discordOutbound[k]? = some record ∧ record.deliveryState.isSettled = false ∧
    record.assistantMessageId = id

theorem mem_undeliveredReferences {id : String} : id ∈ s.undeliveredReferences ↔ s.Referenced id := by
  unfold undeliveredReferences Referenced
  rw [List.mem_append, List.mem_map, List.mem_map]
  refine or_congr ⟨?_, ?_⟩ ⟨?_, ?_⟩
  · rintro ⟨record, hrecord, hid⟩
    obtain ⟨hmem, hopen⟩ := List.mem_filter.mp hrecord
    obtain ⟨k, hk⟩ := Table.mem_vals.mp hmem
    exact ⟨k, record, hk, by simpa using hopen, hid⟩
  · rintro ⟨k, record, hk, hopen, hid⟩
    exact ⟨record, List.mem_filter.mpr ⟨Table.mem_vals.mpr ⟨k, hk⟩, by simpa using hopen⟩, hid⟩
  · rintro ⟨record, hrecord, hid⟩
    obtain ⟨hmem, hopen⟩ := List.mem_filter.mp hrecord
    obtain ⟨k, hk⟩ := Table.mem_vals.mp hmem
    exact ⟨k, record, hk, by simpa using hopen, hid⟩
  · rintro ⟨k, record, hk, hopen, hid⟩
    exact ⟨record, List.mem_filter.mpr ⟨Table.mem_vals.mpr ⟨k, hk⟩, by simpa using hopen⟩, hid⟩

variable (sha s now) in
theorem frame_after : (s.pruneHotTail sha now).2.runs = s.runs ∧ (s.pruneHotTail sha now).2.history = s.history ∧
    ∀ id, (s.pruneHotTail sha now).2.Referenced id ↔ s.Referenced id := by
  unfold pruneHotTail
  split_ifs with hoff
  · exact ⟨rfl, rfl, fun _ => Iff.rfl⟩
  · simp only
    split_ifs with hempty
    · exact ⟨rfl, rfl, fun _ => Iff.rfl⟩
    · refine ⟨rfl, rfl, fun id => or_congr ⟨?_, ?_⟩ ⟨?_, ?_⟩⟩
      · rintro ⟨k, record, hk, hopen, hid⟩
        rw [Std.ExtTreeMap.getElem?_map] at hk
        obtain ⟨old, hold, rfl⟩ := Option.map_eq_some_iff.mp hk
        refine ⟨k, old, hold, ?_, ?_⟩
        · split_ifs at hopen <;> exact hopen
        · split_ifs at hid <;> exact hid
      · rintro ⟨k, record, hk, hopen, hid⟩
        refine ⟨k, record, ?_, hopen, hid⟩
        rw [Std.ExtTreeMap.getElem?_map, hk, Option.map_some, if_neg (by simp [hopen])]
      · rintro ⟨k, record, hk, hopen, hid⟩
        rw [Std.ExtTreeMap.getElem?_map] at hk
        obtain ⟨old, hold, rfl⟩ := Option.map_eq_some_iff.mp hk
        refine ⟨k, old, hold, ?_, ?_⟩
        · split_ifs at hopen <;> exact hopen
        · split_ifs at hid <;> exact hid
      · rintro ⟨k, record, hk, hopen, hid⟩
        refine ⟨k, record, ?_, hopen, hid⟩
        rw [Std.ExtTreeMap.getElem?_map, hk, Option.map_some, if_neg (by simp [hopen])]

theorem eligible_iff {x : Message} : s.eligible now x = true ↔
    x.createdAtMs ≤ now - hotTailMinAgeMs ∧ ¬ s.Referenced x.id ∧ x.id ∈ s.history.mirrored := by
  unfold eligible HistoryService.isMirrored
  rw [Bool.and_eq_true, Bool.and_eq_true, decide_eq_true_eq, Bool.not_eq_true', ← Bool.not_eq_true, List.contains_iff_mem,
    mem_undeliveredReferences, Std.ExtTreeSet.contains_iff_mem, and_assoc]

variable (sha) in
theorem eligible_after : (s.pruneHotTail sha now).2.eligible now = s.eligible now := by
  obtain ⟨-, hhistory, hreferenced⟩ := frame_after sha s now
  funext x
  rw [Bool.eq_iff_iff, eligible_iff, eligible_iff, hhistory, hreferenced]

/-! ## The marks -/

def AtOrAfter (mark : Option SessionPrunedThrough) (order : MessageOrder) : Prop :=
  ∃ through, mark = some through ∧ (compare order through.order).isLE = true

theorem AtOrAfter.of_le {mark : Option SessionPrunedThrough} {order order' : MessageOrder} (h : AtOrAfter mark order')
    (hle : (compare order order').isLE = true) : AtOrAfter mark order := by
  obtain ⟨through, hmark, hthrough⟩ := h
  exact ⟨through, hmark, Std.TransCmp.isLE_trans hle hthrough⟩

theorem moveMark_spec (acc : Table (String × String) SessionRecord × List (String × String × Option SessionPrunedThrough))
    (newest : String × String × SessionPrunedThrough) {key : String × String} {record : SessionRecord}
    (hrecord : acc.1[key]? = some record) :
    ∃ record', (moveMark acc newest).1[key]? = some record' ∧
      (∀ through, record.prunedThrough = some through → AtOrAfter record'.prunedThrough through.order) ∧
      ((newest.1, newest.2.1) = key → AtOrAfter record'.prunedThrough newest.2.2.order) := by
  have hself : ∀ through, record.prunedThrough = some through → AtOrAfter record.prunedThrough through.order :=
    fun through h => ⟨through, h, Std.ReflCmp.isLE_rfl⟩
  unfold moveMark
  by_cases hkey : (newest.1, newest.2.1) = key
  · rw [hkey, hrecord]
    simp only
    split_ifs with hnewer
    · refine ⟨{ record with prunedThrough := some newest.2.2 }, by simp, fun through hthrough => ?_, fun _ => ?_⟩
      · rw [hthrough] at hnewer
        refine ⟨newest.2.2, rfl, ?_⟩
        have hgt : compare newest.2.2.order through.order = .gt := by simpa using hnewer
        rw [Std.OrientedCmp.gt_iff_lt] at hgt
        rw [hgt]
        rfl
      · exact ⟨newest.2.2, rfl, Std.ReflCmp.isLE_rfl⟩
    · refine ⟨record, hrecord, hself, fun _ => ?_⟩
      rcases hprevious : record.prunedThrough with _ | previous
      · rw [hprevious] at hnewer
        exact absurd rfl hnewer
      · rw [hprevious] at hnewer
        refine ⟨previous, rfl, ?_⟩
        rw [Option.all_some, beq_iff_eq] at hnewer
        rcases hcompare : compare newest.2.2.order previous.order with _ | _ | _
        · rfl
        · rfl
        · exact absurd hcompare hnewer
  · refine ⟨record, ?_, hself, fun h => absurd h hkey⟩
    rcases hother : acc.1[(newest.1, newest.2.1)]? with _ | other
    · exact hrecord
    · simp only
      split_ifs
      · rw [Table.getElem?_insert_eq, if_neg hkey]
        exact hrecord
      · exact hrecord

theorem foldl_moveMark (l : List (String × String × SessionPrunedThrough))
    (acc : Table (String × String) SessionRecord × List (String × String × Option SessionPrunedThrough))
    {key : String × String} {record : SessionRecord} (hrecord : acc.1[key]? = some record) :
    ∃ record', (l.foldl moveMark acc).1[key]? = some record' ∧
      (∀ through, record.prunedThrough = some through → AtOrAfter record'.prunedThrough through.order) ∧
      ∀ newest ∈ l, (newest.1, newest.2.1) = key → AtOrAfter record'.prunedThrough newest.2.2.order := by
  induction l generalizing acc record with
  | nil => exact ⟨record, hrecord, fun through h => ⟨through, h, Std.ReflCmp.isLE_rfl⟩, fun _ h => absurd h List.not_mem_nil⟩
  | cons newest l ih =>
    obtain ⟨middle, hmiddle, hforward, hmark⟩ := moveMark_spec acc newest hrecord
    obtain ⟨record', hrecord', hforward', hmarks⟩ := ih (moveMark acc newest) hmiddle
    have hcarry : ∀ order, AtOrAfter middle.prunedThrough order → AtOrAfter record'.prunedThrough order := by
      rintro order ⟨through, hthrough, hle⟩
      exact (hforward' through hthrough).of_le hle
    refine ⟨record', hrecord', fun through h => hcarry _ (hforward through h), fun mark hmem hkey => ?_⟩
    rcases List.mem_cons.mp hmem with rfl | hmem
    · exact hcarry _ (hmark hkey)
    · exact hmarks mark hmem hkey

theorem find_reverse_last {α : Type} {p : α → Bool} {R : α → α → Prop} (hrefl : ∀ a, R a a) {l : List α}
    (hl : l.Pairwise R) {m : α} (hm : l.reverse.find? p = some m) : ∀ x ∈ l, p x = true → R x m := by
  intro x hx hpx
  obtain ⟨-, before, after, hsplit, hbefore⟩ := List.find?_eq_some_iff_append.mp hm
  have hrev : (before ++ m :: after).Pairwise fun a b => R b a := by
    rw [← hsplit]
    exact List.pairwise_reverse.mpr hl
  have hmem : x ∈ before ++ m :: after := by
    rw [← hsplit]
    exact List.mem_reverse.mpr hx
  rcases List.mem_append.mp hmem with hin | hin
  · exact absurd hpx (by simpa using hbefore x hin)
  · rcases List.mem_cons.mp hin with rfl | hin
    · exact hrefl x
    · exact (List.pairwise_cons.mp (List.pairwise_append.mp hrev).2.1).1 x hin

/-! ## What a pass removes -/

variable (s) in
/-- The store holds the message, and no delivery needs it. -/
def Free (x : Message) : Prop := x.id ∈ s.history.mirrored ∧ ¬ s.Referenced x.id

variable (sha s) in
/-- What the pass asks of a message: its session has no active run, it is free and old, and it stands before the window of its
room or in a silent turn all of whose messages are free and old. -/
def MayLeave (old : Message → Prop) (agent : String) (x : Message) : Prop :=
  s.Idle sha agent x.roomId ∧ s.Free x ∧ old x ∧
    (BeforeWindow (room (s.messagesOf agent) x.roomId) x ∨
      ∃ turn, SilentTurn (room (s.messagesOf agent) x.roomId) turn ∧ x ∈ turn ∧ ∀ y ∈ turn, s.Free y ∧ old y)

theorem eligible_free {x : Message} :
    s.eligible now x = true ↔ s.Free x ∧ x.createdAtMs ≤ now - hotTailMinAgeMs := by
  rw [eligible_iff]
  constructor
  · rintro ⟨hold, hreferenced, hmirrored⟩
    exact ⟨⟨hmirrored, hreferenced⟩, hold⟩
  · rintro ⟨⟨hmirrored, hreferenced⟩, hold⟩
    exact ⟨hold, hreferenced, hmirrored⟩

theorem removed_iff (hdistinct : s.DistinctIds) {agent : String} {x : Message} (hx : x ∈ s.messagesOf agent) :
    x ∉ (s.pruneHotTail sha now).2.messagesOf agent ↔
      s.Pruning ∧ s.MayLeave sha (fun y => y.createdAtMs ≤ now - hotTailMinAgeMs) agent x := by
  by_cases hpruning : s.Pruning
  · have hroom : x ∈ room (s.messagesOf agent) x.roomId := mem_room.mpr ⟨hx, rfl⟩
    have hids : Distinct (room (s.messagesOf agent) x.roomId) := (hdistinct agent).room x.roomId
    have hafter : x ∈ (s.pruneHotTail sha now).2.messagesOf agent ↔
        x ∈ room ((s.pruneHotTail sha now).2.messagesOf agent) x.roomId := by
      rw [mem_room]
      exact ⟨fun h => ⟨h, rfl⟩, fun h => h.1⟩
    rw [hafter, room_after _ _ hpruning hdistinct, List.mem_filter, not_and]
    unfold MayLeave
    rw [Bool.not_eq_true', Bool.not_eq_false, Bool.and_eq_true, decide_eq_true_eq, mem_prunable hids hroom, mem_outside_iff,
      mem_silentPrunable hids]
    constructor
    · intro h
      obtain ⟨hidle, hleave⟩ := h hroom
      refine ⟨hpruning, hidle, ?_⟩
      rcases hleave with ⟨hbefore, helig⟩ | ⟨turn, hturn, hin, hall⟩
      · obtain ⟨hfree, hold⟩ := eligible_free.mp helig
        exact ⟨hfree, hold, .inl hbefore⟩
      · have hevery : ∀ y ∈ turn, s.Free y ∧ y.createdAtMs ≤ now - hotTailMinAgeMs :=
          fun y hy => eligible_free.mp (hall y hy)
        exact ⟨(hevery x hin).1, (hevery x hin).2, .inr ⟨turn, hturn, hin, hevery⟩⟩
    · rintro ⟨-, hidle, hfree, hold, hleave⟩ -
      refine ⟨hidle, ?_⟩
      rcases hleave with hbefore | ⟨turn, hturn, hin, hall⟩
      · exact .inl ⟨hbefore, eligible_free.mpr ⟨hfree, hold⟩⟩
      · exact .inr ⟨turn, hturn, hin, fun y hy => eligible_free.mpr (hall y hy)⟩
  · rw [prune_off hpruning]
    exact ⟨fun h => absurd hx h, fun h => absurd h.1 hpruning⟩

theorem newest_of_mem {eligible : Message → Bool} {messages : List Message} {x : Message}
    (hordered : messages.Pairwise fun a b => (compare (messageOrder a) (messageOrder b)).isLE = true)
    (hx : x ∈ roomPrunable eligible messages) (hvisible : x.id ∉ hiddenMessageIds messages) :
    ∃ newest, (pruneRoom eligible messages).newest = some newest ∧ (compare (messageOrder x) newest.order).isLE = true := by
  have hpx : (!(hiddenMessageIds messages).contains x.id) = true := by simpa using hvisible
  have hsub : (roomPrunable eligible messages).Sublist messages := by
    rw [roomPrunable_eq]
    exact List.filter_sublist.trans (List.take_sublist _ _)
  rcases hfind : (roomPrunable eligible messages).reverse.find? fun message =>
      !(hiddenMessageIds messages).contains message.id with _ | m
  · exact absurd hpx (by simpa using List.find?_eq_none.mp hfind x (List.mem_reverse.mpr hx))
  · refine ⟨.of m, ?_, ?_⟩
    · unfold pruneRoom
      simp only
      rw [hfind]
      rfl
    · exact find_reverse_last (R := fun a b => (compare (messageOrder a) (messageOrder b)).isLE = true)
        (fun _ => Std.ReflCmp.isLE_rfl) (hordered.sublist hsub) hfind x hx hpx

theorem mem_newestPruned {agent : String} {x : Message} (hx : x ∈ s.messagesOf agent) (hidle : s.Idle sha agent x.roomId)
    {newest : SessionPrunedThrough}
    (hnewest : (pruneRoom (s.eligible now) (room (s.messagesOf agent) x.roomId)).newest = some newest) :
    (agent, sessionIdForRoom sha x.roomId, newest) ∈ s.agents.toList.flatMap fun a => s.newestPruned sha now a.1 a.2 := by
  rcases hagent : s.agents[agent]? with _ | runtime
  · unfold messagesOf at hx
    rw [hagent] at hx
    exact absurd hx List.not_mem_nil
  · rw [messagesOf_of_agent hagent] at hx hnewest
    rw [List.mem_flatMap]
    refine ⟨(agent, runtime), Table.mem_toList.mpr hagent, ?_⟩
    unfold newestPruned
    rw [List.mem_flatMap]
    refine ⟨(x.roomId, room runtime.messages x.roomId), mem_idleRooms.mpr ⟨rfl, ?_, hidle⟩, ?_⟩
    · exact List.ne_nil_of_mem (mem_room.mpr ⟨hx, rfl⟩)
    · simp only
      rw [hnewest]
      simp

theorem newest_stay (hdistinct : s.DistinctIds) {agent roomId : String} {x : Message}
    (hx : x ∈ newestVisible (room (s.messagesOf agent) roomId)) : x ∈ (s.pruneHotTail sha now).2.messagesOf agent := by
  have hmem : x ∈ room (s.messagesOf agent) roomId := List.mem_of_mem_filter (List.mem_of_mem_drop hx)
  obtain ⟨hin, rfl⟩ := mem_room.mp hmem
  have hids : Distinct (room (s.messagesOf agent) x.roomId) := (hdistinct agent).room x.roomId
  obtain ⟨hvisible, hinside⟩ := newestVisible_inside hids.of_map hx
  by_contra hleft
  obtain ⟨-, -, -, -, hbefore | ⟨turn, hturn, hxt, -⟩⟩ := (removed_iff hdistinct hin).mp hleft
  · exact hinside (mem_outside_iff.mpr hbefore)
  · exact hvisible (hturn.2 x hxt)

variable (sha now) in
theorem distinctIds_after (hdistinct : s.DistinctIds) : (s.pruneHotTail sha now).2.DistinctIds :=
  fun agent => (hdistinct agent).sublist (messagesOf_sublist _ _ _ agent)

theorem second_hidden (hdistinct : s.DistinctIds) {agent : String} {x : Message}
    (hx : x ∈ (s.pruneHotTail sha now).2.messagesOf agent)
    (hleft : x ∉ ((s.pruneHotTail sha now).2.pruneHotTail sha now).2.messagesOf agent) :
    x.id ∈ hiddenMessageIds (room ((s.pruneHotTail sha now).2.messagesOf agent) x.roomId) := by
  have hids := distinctIds_after sha now hdistinct
  obtain ⟨hpruning', hidle, hfree, hold, hleave⟩ := (removed_iff hids hx).mp hleft
  rcases hleave with hbefore | ⟨turn, hturn, hxt, -⟩
  · -- What stands before the window is what the first pass found not eligible.
    exfalso
    obtain ⟨hruns, hhistory, -⟩ := frame_after sha s now
    have hpruning : s.Pruning := by
      unfold Pruning at hpruning' ⊢
      rwa [hhistory] at hpruning'
    have hidle' : s.Idle sha agent x.roomId := by
      unfold Idle at hidle ⊢
      rwa [hruns] at hidle
    have hroom := room_after sha now hpruning hdistinct agent x.roomId
    simp only [hidle', decide_true, Bool.true_and] at hroom
    have hnone := second_pass (s.eligible now) ((hdistinct agent).room x.roomId)
    unfold kept at hnone
    rw [← hroom, roomPrunable_eq, List.filter_eq_nil_iff] at hnone
    have helig : s.eligible now x = true := by
      rw [← eligible_after sha]
      exact eligible_free.mpr ⟨hfree, hold⟩
    exact hnone x (mem_outside_iff.mpr hbefore) helig
  · exact hturn.2 x hxt

theorem marks_after (hdistinct : s.DistinctIds) {key : String × String} {record : SessionRecord}
    (hrecord : s.sessions[key]? = some record) :
    ∃ record', (s.pruneHotTail sha now).2.sessions[key]? = some record' ∧
      (∀ through, record.prunedThrough = some through → AtOrAfter record'.prunedThrough through.order) ∧
      ∀ x ∈ s.messagesOf key.1, sessionIdForRoom sha x.roomId = key.2 →
        (room (s.messagesOf key.1) x.roomId).Pairwise (fun a b => (compare (messageOrder a) (messageOrder b)).isLE = true) →
        x.id ∉ hiddenMessageIds (room (s.messagesOf key.1) x.roomId) →
        x ∉ (s.pruneHotTail sha now).2.messagesOf key.1 → AtOrAfter record'.prunedThrough (messageOrder x) := by
  have hsame : (s.pruneHotTail sha now).2 = s → ∃ record', (s.pruneHotTail sha now).2.sessions[key]? = some record' ∧
      (∀ through, record.prunedThrough = some through → AtOrAfter record'.prunedThrough through.order) ∧
      ∀ x ∈ s.messagesOf key.1, sessionIdForRoom sha x.roomId = key.2 →
        (room (s.messagesOf key.1) x.roomId).Pairwise (fun a b => (compare (messageOrder a) (messageOrder b)).isLE = true) →
        x.id ∉ hiddenMessageIds (room (s.messagesOf key.1) x.roomId) →
        x ∉ (s.pruneHotTail sha now).2.messagesOf key.1 → AtOrAfter record'.prunedThrough (messageOrder x) := by
    intro heq
    rw [heq]
    exact ⟨record, hrecord, fun through h => ⟨through, h, Std.ReflCmp.isLE_rfl⟩, fun x hx _ _ _ hleft => absurd hx hleft⟩
  by_cases hpruning : s.Pruning
  · by_cases hempty : ((s.agents.toList.map fun a => (a.1, s.prunable sha now a.1 a.2)).filter fun a => !a.2.isEmpty).isEmpty
    · refine hsame ?_
      unfold pruneHotTail
      rw [if_neg (by simp [hpruning.1, hpruning.2])]
      simp only
      rw [if_pos hempty]
    · have hsessions : (s.pruneHotTail sha now).2.sessions =
          ((s.agents.toList.flatMap fun a => s.newestPruned sha now a.1 a.2).foldl moveMark (s.sessions, [])).1 := by
        unfold pruneHotTail
        rw [if_neg (by simp [hpruning.1, hpruning.2])]
        simp only
        rw [if_neg hempty]
      obtain ⟨record', hrecord', hforward, hmarks⟩ :=
        foldl_moveMark (s.agents.toList.flatMap fun a => s.newestPruned sha now a.1 a.2) (s.sessions, []) hrecord
      rw [← hsessions] at hrecord'
      refine ⟨record', hrecord', hforward, fun x hx hsession hordered hvisible hleft => ?_⟩
      obtain ⟨-, hidle, hfree, hold, hleave⟩ := (removed_iff hdistinct hx).mp hleft
      have hwindow : x ∈ roomPrunable (s.eligible now) (room (s.messagesOf key.1) x.roomId) := by
        rcases hleave with hbefore | ⟨turn, hturn, hxt, -⟩
        · rw [roomPrunable_eq]
          exact List.mem_filter.mpr ⟨mem_outside_iff.mpr hbefore, eligible_free.mpr ⟨hfree, hold⟩⟩
        · exact absurd (hturn.2 x hxt) hvisible
      obtain ⟨newest, hnewest, hle⟩ := newest_of_mem hordered hwindow hvisible
      refine (hmarks (key.1, sessionIdForRoom sha x.roomId, newest) ?_ (by rw [hsession])).of_le hle
      exact mem_newestPruned hx hidle hnewest
  · refine hsame ?_
    rw [prune_off hpruning]

/-! ## What a pass keeps -/

variable (s now) in
def Old (x : Message) : Prop := x.createdAtMs + hotTailMinAgeMs ≤ now

variable (sha s now) in
/-- **A pass keeps what it must.** -/
structure Keeps : Prop where
  removed : ∀ agent, ∀ x ∈ s.messagesOf agent, x ∉ (s.pruneHotTail sha now).2.messagesOf agent →
    s.MayLeave sha (Old now) agent x
  newest : ∀ agent roomId, ∀ x ∈ newestVisible (room (s.messagesOf agent) roomId),
    x ∈ (s.pruneHotTail sha now).2.messagesOf agent
  ordered : ∀ agent, ((s.pruneHotTail sha now).2.messagesOf agent).Sublist (s.messagesOf agent)
  again : ∀ agent, ∀ x ∈ (s.pruneHotTail sha now).2.messagesOf agent,
    x ∉ ((s.pruneHotTail sha now).2.pruneHotTail sha now).2.messagesOf agent →
      x.id ∈ hiddenMessageIds (room ((s.pruneHotTail sha now).2.messagesOf agent) x.roomId)
  marks : ∀ (key : String × String) (record : SessionRecord), s.sessions[key]? = some record →
    ∃ record', (s.pruneHotTail sha now).2.sessions[key]? = some record' ∧
      (∀ through, record.prunedThrough = some through → AtOrAfter record'.prunedThrough through.order) ∧
      ∀ x ∈ s.messagesOf key.1, sessionIdForRoom sha x.roomId = key.2 →
        (room (s.messagesOf key.1) x.roomId).Pairwise (fun a b => (compare (messageOrder a) (messageOrder b)).isLE = true) →
        x.id ∉ hiddenMessageIds (room (s.messagesOf key.1) x.roomId) →
        x ∉ (s.pruneHotTail sha now).2.messagesOf key.1 → AtOrAfter record'.prunedThrough (messageOrder x)

theorem MayLeave.mono {old old' : Message → Prop} (h : ∀ x, old x → old' x) {agent : String} {x : Message}
    (hleave : s.MayLeave sha old agent x) : s.MayLeave sha old' agent x := by
  obtain ⟨hidle, hfree, hold, hbefore | ⟨turn, hturn, hx, hall⟩⟩ := hleave
  · exact ⟨hidle, hfree, h x hold, .inl hbefore⟩
  · exact ⟨hidle, hfree, h x hold, .inr ⟨turn, hturn, hx, fun y hy => ⟨(hall y hy).1, h y (hall y hy).2⟩⟩⟩

/-- **A pass keeps what it must** if and only if the clock is past its first day, or there is nothing from the start of the clock
that would leave: the subtraction that makes the cutoff stops at 0, and so on the first day a message of the first millisecond
counts as old. -/
theorem keeps_iff (hdistinct : s.DistinctIds) :
    s.Keeps sha now ↔ hotTailMinAgeMs ≤ now ∨ ¬ s.Pruning ∨
      ∀ agent, ∀ x ∈ s.messagesOf agent, ¬ s.MayLeave sha (fun y => y.createdAtMs = 0) agent x := by
  constructor
  · intro hkeeps
    rw [or_iff_not_imp_left, or_iff_not_imp_left]
    intro hearly hpruning agent x hx hleave
    rw [not_not] at hpruning
    have hleft : x ∉ (s.pruneHotTail sha now).2.messagesOf agent :=
      (removed_iff hdistinct hx).mpr ⟨hpruning, hleave.mono fun y hy => by omega⟩
    have hold : x.createdAtMs + hotTailMinAgeMs ≤ now := (hkeeps.removed agent x hx hleft).2.2.1
    omega
  · intro hwhen
    refine ⟨fun agent x hx hleft => ?_, fun _ _ _ hx => newest_stay hdistinct hx, fun agent => messagesOf_sublist _ _ _ agent,
      fun _ _ hx hleft => second_hidden hdistinct hx hleft, fun _ _ hrecord => marks_after hdistinct hrecord⟩
    obtain ⟨hpruning, hleave⟩ := (removed_iff hdistinct hx).mp hleft
    rcases hwhen with hlate | hoff | hnone
    · refine hleave.mono fun y hy => ?_
      show y.createdAtMs + hotTailMinAgeMs ≤ now
      omega
    · exact absurd hpruning hoff
    · -- On the first day only what was made at 0 counts as old.
      by_cases hlate : hotTailMinAgeMs ≤ now
      · refine hleave.mono fun y hy => ?_
        show y.createdAtMs + hotTailMinAgeMs ≤ now
        omega
      · exact absurd (hleave.mono fun y hy => by omega) (hnone agent x hx)

/-- The control plane of one agent with one room, on the first day of the clock: one silent reply, made at 0 and mirrored. -/
def firstDay : DaemonState where
  agents := (∅ : Table String AgentRuntime).insert "agent" {
    status := .idle
    tokenUsage := ⟨0, 0, 0, 0, 0⟩
    messages := [⟨"reply", "agent", "room", ⟨"CHECKIN_OK", none, none⟩, .assistant, 0⟩]
    lastTask := none
    events := []
    eventTotal := 0
    stepCounter := 0 }
  sessions := ∅
  runs := ∅
  outbound := ∅
  discordOutbound := ∅
  history := ⟨false, true, (∅ : KeySet String).insert "reply"⟩

theorem firstDay_distinctIds : firstDay.DistinctIds := by
  intro agent
  unfold messagesOf firstDay
  rw [Table.getElem?_insert_eq]
  split_ifs
  · exact List.nodup_singleton _
  · simp [Distinct]

/-- A day later the pass keeps what it must. -/
theorem keeps_after_first_day : firstDay.Keeps id hotTailMinAgeMs := (keeps_iff firstDay_distinctIds).mpr (.inl le_rfl)

/-- On the first day a message of five milliseconds leaves. -/
theorem first_day_reply_leaves : ¬ ∀ (s : DaemonState) (now : ℕ), s.DistinctIds → s.Keeps id now := by
  intro hkeeps
  have hin : firstDay.messagesOf "agent" = [⟨"reply", "agent", "room", ⟨"CHECKIN_OK", none, none⟩, .assistant, 0⟩] := by
    decide +kernel
  have hafter : (firstDay.pruneHotTail id 5).2.messagesOf "agent" = [] := by decide +kernel
  have hleave := (hkeeps firstDay 5 firstDay_distinctIds).removed "agent" _ (by rw [hin]; exact List.mem_singleton_self _)
    (by rw [hafter]; exact List.not_mem_nil)
  have hold : 0 + hotTailMinAgeMs ≤ 5 := hleave.2.2.1
  exact absurd hold (by decide)

end DaemonState

end AnimaCore.HotTail
