import AnimaCore.HotTail.Pruning

/-!
# AnimaCore.HotTail.ToolResults — tool results and their calls

A provider refuses a transcript that holds a tool result without an earlier assistant message that carries its call.  The window
begins with a turn, but what stands before it leaves message by message.

* `NoOrphan`: every tool result has its call before it; `noOrphan_filter` for a part of a transcript.
-/

namespace AnimaCore.HotTail

open Lib RunDelta Runs AnimaMemory

/-- The ids of the calls in an array of `toolCalls`. -/
def callIds : DataItems → List String
  | .nil => []
  | .cons (.object fields) rest =>
    match dataGet "id" fields with
    | some (.string id) => id :: callIds rest
    | _ => callIds rest
  | .cons _ rest => callIds rest

def carriedCalls (message : Message) : List String :=
  match message.role, message.content.metadata.bind (dataGet "toolCalls") with
  | .assistant, some (.array items) => callIds items
  | _, _ => []

/-- The message carries the call whose result the other one is. -/
def CarriesCall (call result : Message) : Prop := ∃ id ∈ carriedCalls call, metadataStr result "toolCallId" = some id

/-- Every tool result has an earlier message that carries its call. -/
def NoOrphan (messages : List Message) : Prop :=
  ∀ before result after, messages = before ++ result :: after → result.role = .tool → ∃ call ∈ before, CarriesCall call result

/-- Every tool result has its call in its own turn. -/
def Matched (messages : List Message) : Prop := NoOrphan (beforeTurns messages) ∧ ∀ turn ∈ turns messages, NoOrphan turn

/-! ## Parts of a transcript -/

theorem noOrphan_nil : NoOrphan [] := by
  intro before result after hsplit
  exact absurd hsplit (by simp)

theorem noOrphan_filter {p : Message → Bool} {messages : List Message} :
    NoOrphan (messages.filter p) ↔ ∀ before result after, messages = before ++ result :: after → result.role = .tool →
      p result = true → ∃ call ∈ before, CarriesCall call result ∧ p call = true := by
  constructor
  · rintro h before result after rfl hrole hp
    have hsplit : (before ++ result :: after).filter p = before.filter p ++ result :: after.filter p := by
      rw [List.filter_append, List.filter_cons, if_pos hp]
    obtain ⟨call, hcall, hcarries⟩ := h _ _ _ hsplit hrole
    obtain ⟨hin, hstays⟩ := List.mem_filter.mp hcall
    exact ⟨call, hin, hcarries, hstays⟩
  · intro h before result after hsplit hrole
    obtain ⟨front, back, rfl, rfl, hback⟩ := List.filter_eq_append_iff.mp hsplit
    obtain ⟨gone, rest, rfl, hgone, hp, -⟩ := List.filter_eq_cons_iff.mp hback
    obtain ⟨call, hcall, hcarries, hstays⟩ := h (front ++ gone) result rest (by simp) hrole hp
    rcases List.mem_append.mp hcall with hin | hin
    · exact ⟨call, List.mem_filter.mpr ⟨hin, hstays⟩, hcarries⟩
    · exact absurd hstays (hgone call hin)

theorem NoOrphan.left {l r : List Message} (h : NoOrphan (l ++ r)) : NoOrphan l := by
  rintro before result after rfl hrole
  exact h before result (after ++ r) (by simp) hrole

theorem NoOrphan.append {l r : List Message} (hl : NoOrphan l) (hr : NoOrphan r) : NoOrphan (l ++ r) := by
  intro before result after hsplit hrole
  rcases List.append_eq_append_iff.mp hsplit with ⟨middle, rfl, hright⟩ | ⟨middle, rfl, hmiddle⟩
  · obtain ⟨call, hcall, hcarries⟩ := hr middle result after hright hrole
    exact ⟨call, List.mem_append.mpr (.inr hcall), hcarries⟩
  · rcases middle with _ | ⟨x, middle⟩
    · obtain ⟨call, hcall, -⟩ := hr [] result after (by simpa using hmiddle.symm) hrole
      exact absurd hcall List.not_mem_nil
    · obtain ⟨rfl, -⟩ := List.cons_eq_cons.mp hmiddle
      exact hl before result middle rfl hrole

theorem noOrphan_flatten {l : List (List Message)} (h : ∀ turn ∈ l, NoOrphan turn) : NoOrphan l.flatten := by
  induction l with
  | nil => exact noOrphan_nil
  | cons turn l ih =>
    rw [List.flatten_cons]
    exact (h turn List.mem_cons_self).append (ih fun t ht => h t (List.mem_cons_of_mem _ ht))

theorem Matched.noOrphan {messages : List Message} (h : Matched messages) : NoOrphan messages := by
  rw [← turns_join messages]
  exact h.1.append (noOrphan_flatten h.2)

/-! ## One room -/

/-- The results that are left before the window, or before the first turn, have their calls left with them. -/
def ResultsKeepCalls (eligible : Message → Bool) (messages : List Message) : Prop :=
  (∀ before result after, outsideNewestVisible messages (hiddenMessageIds messages) = before ++ result :: after →
    result.role = .tool → eligible result = false → ∃ call ∈ before, CarriesCall call result ∧ eligible call = false) ∧
  (outsideNewestVisible messages (hiddenMessageIds messages) = [] →
    ∀ before result after, beforeTurns messages = before ++ result :: after → result.role = .tool →
      ∃ call ∈ before, CarriesCall call result ∧ ¬ (call.id ∈ hiddenMessageIds messages ∧ eligible call = true))

section

variable {eligible : Message → Bool} {messages : List Message}

theorem stays_iff {call : Message} {hidden : List String} :
    (!(hidden.contains call.id && eligible call)) = true ↔ ¬ (call.id ∈ hidden ∧ eligible call = true) := by
  rw [Bool.not_eq_true', ← Bool.not_eq_true, Bool.and_eq_true, List.contains_iff_mem]

theorem tool_not_hidden (hdistinct : Distinct messages) {result : Message} (hmem : result ∈ beforeTurns messages)
    (hrole : result.role = .tool) : result.id ∉ hiddenMessageIds messages := by
  rw [mem_hidden_before hdistinct hmem]
  rcases closeGroup_missing (beforeTurns messages) with hnil | ⟨reply, hreply, hassistant, -, hone⟩
  · rw [hnil]
    exact List.not_mem_nil
  · rw [hone, List.mem_singleton]
    intro hid
    obtain rfl := hdistinct.inj (mem_of_mem_before hmem) (mem_of_mem_before hreply) hid
    rw [hrole] at hassistant
    cases hassistant

theorem noOrphan_kept (hdistinct : Distinct messages) (hmatched : Matched messages) :
    NoOrphan (kept eligible messages) ↔ ResultsKeepCalls eligible messages := by
  have hturns : ∀ l : List (List Message), (∀ turn ∈ l, turn ∈ turns messages) → NoOrphan (l.filter (keptTurn eligible)).flatten :=
    fun l hl => noOrphan_flatten fun turn hturn => hmatched.2 turn (hl turn (List.mem_of_mem_filter hturn))
  unfold ResultsKeepCalls
  by_cases hout : outsideNewestVisible messages (hiddenMessageIds messages) = []
  · -- There is nothing outside: only the hidden reply before the first turn leaves by itself.
    rw [kept_of_few hdistinct hout, hout]
    constructor
    · intro h
      refine ⟨fun before result after hsplit => absurd hsplit (by simp), fun _ before result after hsplit hrole => ?_⟩
      have hmem : result ∈ beforeTurns messages := by
        rw [hsplit]
        simp
      have hvisible := tool_not_hidden hdistinct hmem hrole
      obtain ⟨call, hcall, hcarries, hstays⟩ :=
        noOrphan_filter.mp h.left before result after hsplit hrole (stays_iff.mpr fun hboth => hvisible hboth.1)
      exact ⟨call, hcall, hcarries, stays_iff.mp hstays⟩
    · rintro ⟨-, h⟩
      refine NoOrphan.append (noOrphan_filter.mpr fun before result after hsplit hrole _ => ?_) (hturns _ fun _ ht => ht)
      obtain ⟨call, hcall, hcarries, hstays⟩ := h rfl before result after hsplit hrole
      exact ⟨call, hcall, hcarries, stays_iff.mpr hstays⟩
  · obtain ⟨older, turn, newer, hsplit, hwindow⟩ := window_of_outside hout
    rw [kept_of_window hdistinct hsplit hwindow]
    have hfront : NoOrphan ((beforeTurns messages ++ older.flatten).filter (fun x => !eligible x)) ↔
        ∀ before result after, outsideNewestVisible messages (hiddenMessageIds messages) = before ++ result :: after →
          result.role = .tool → eligible result = false → ∃ call ∈ before, CarriesCall call result ∧ eligible call = false := by
      rw [noOrphan_filter, hwindow]
      simp only [Bool.not_eq_true']
    constructor
    · exact fun h => ⟨hfront.mp h.left, fun hnil => absurd hnil hout⟩
    · rintro ⟨h, -⟩
      refine (hfront.mpr h).append (hturns _ fun t ht => ?_)
      rw [hsplit]
      exact List.mem_append.mpr (.inr ht)

end

namespace DaemonState

variable {sha : String → String} {s : DaemonState} {now : ℕ}

/-- **A pass orphans no tool result** if and only if, in every room it works on, the results that it leaves keep their calls. -/
theorem no_orphans_iff (hdistinct : s.DistinctIds) (hmatched : ∀ agent roomId, Matched (room (s.messagesOf agent) roomId)) :
    (∀ agent roomId, NoOrphan (room ((s.pruneHotTail sha now).2.messagesOf agent) roomId)) ↔
      ¬ s.Pruning ∨ ∀ agent roomId, s.Idle sha agent roomId →
        ResultsKeepCalls (s.eligible now) (room (s.messagesOf agent) roomId) := by
  by_cases hpruning : s.Pruning
  · have hroom : ∀ agent roomId, NoOrphan (room ((s.pruneHotTail sha now).2.messagesOf agent) roomId) ↔
        (s.Idle sha agent roomId → ResultsKeepCalls (s.eligible now) (room (s.messagesOf agent) roomId)) := by
      intro agent roomId
      rw [room_after sha now hpruning hdistinct]
      by_cases hidle : s.Idle sha agent roomId
      · have hkept : NoOrphan (kept (s.eligible now) (room (s.messagesOf agent) roomId)) ↔
            ResultsKeepCalls (s.eligible now) (room (s.messagesOf agent) roomId) :=
          noOrphan_kept ((hdistinct agent).room roomId) (hmatched agent roomId)
        unfold kept at hkept
        simp only [hidle, decide_true, Bool.true_and, forall_const]
        exact hkept
      · simp only [hidle, decide_false, Bool.false_and, Bool.not_false, List.filter_true, false_imp_iff, iff_true]
        exact (hmatched agent roomId).noOrphan
    constructor
    · exact fun h => .inr fun agent roomId => (hroom agent roomId).mp (h agent roomId)
    · rintro (hoff | h) agent roomId
      · exact absurd hpruning hoff
      · exact (hroom agent roomId).mpr (h agent roomId)
  · rw [prune_off hpruning]
    exact ⟨fun _ => .inl hpruning, fun _ agent roomId => (hmatched agent roomId).noOrphan⟩

namespace Sample

def line (id : String) (role : MessageRole) (createdAtMs : ℕ) (metadata : Option DataFields) : Message :=
  ⟨id, "agent", "room", ⟨id, none, metadata⟩, role, createdAtMs⟩

def result : Message := line "result" .tool 3 (some (.cons "toolCallId" (.string "c") .nil))

def tornTurn : List Message :=
  [line "question" .user 0 none,
    line "call" .assistant 1
      (some (.cons "toolCalls" (.array (.cons (.object (.cons "id" (.string "c") .nil)) .nil)) .nil)),
    result, line "answer" .assistant 4 none]

def longTurn : List Message :=
  (List.range 200).map fun i =>
    line (String.singleton (Char.ofNat (0x4E00 + i))) (if i = 0 then .user else .assistant) (5 + i) none

/-- The control plane with the two turns; the store holds the beginning of the first one. -/
def tornRoom : DaemonState where
  agents := (∅ : Table String AgentRuntime).insert "agent" {
    status := .idle
    tokenUsage := ⟨0, 0, 0, 0, 0⟩
    messages := tornTurn ++ longTurn
    lastTask := none
    events := []
    eventTotal := 0
    stepCounter := 0 }
  sessions := ∅
  runs := ∅
  outbound := ∅
  discordOutbound := ∅
  history := ⟨false, true, ((∅ : KeySet String).insert "question").insert "call"⟩

def unreconciledRoom : DaemonState := { tornRoom with history := { tornRoom.history with reconciled := false } }

theorem torn_distinct : Distinct (tornTurn ++ longTurn) := by
  have hcode : ∀ i ∈ List.range 200, (Char.ofNat (0x4E00 + i)).toNat = 0x4E00 + i := by decide +kernel
  have hlong : (longTurn.map (·.id)).Nodup := by
    unfold longTurn
    rw [List.map_map]
    refine List.Nodup.map_on (fun i hi j hj hij => ?_) List.nodup_range
    have hchar : Char.ofNat (0x4E00 + i) = Char.ofNat (0x4E00 + j) := String.singleton_inj.mp hij
    have hnat := congrArg Char.toNat hchar
    rw [hcode i hi, hcode j hj] at hnat
    omega
  have hapart : ∀ x ∈ longTurn, x.id ∉ tornTurn.map (·.id) := by decide +kernel
  unfold Distinct
  rw [List.map_append, List.nodup_append]
  refine ⟨by decide +kernel, hlong, ?_⟩
  rintro _ hx _ hy rfl
  obtain ⟨y, hy, hid⟩ := List.mem_map.mp hy
  exact hapart y hy (hid ▸ hx)

theorem torn_turns : turns (tornTurn ++ longTurn) = [tornTurn, longTurn] ∧ beforeTurns (tornTurn ++ longTurn) = [] := by
  decide +kernel

theorem torn_matched : Matched (tornTurn ++ longTurn) := by
  unfold Matched
  rw [torn_turns.1, torn_turns.2]
  refine ⟨noOrphan_nil, fun turn hturn => ?_⟩
  have htool : ∀ x ∈ turn, x.role = .tool → turn = tornTurn ∧ x = result := by
    rcases List.mem_cons.mp hturn with rfl | hlong
    · decide +kernel
    · rw [List.mem_singleton.mp hlong]
      decide +kernel
  intro before x after hsplit hrole
  obtain ⟨rfl, rfl⟩ := htool x (by rw [hsplit]; simp) hrole
  -- The call is the second message, and the result the third.
  have hplace : ∀ n ≤ tornTurn.length, tornTurn[n]? = some result → n = 2 := by decide +kernel
  have hlength : before.length = 2 := by
    refine hplace before.length ?_ ?_
    · rw [hsplit, List.length_append]
      omega
    · rw [hsplit, List.getElem?_append_right le_rfl, Nat.sub_self]
      rfl
  have hbefore : before = tornTurn.take 2 := by
    rw [hsplit, ← hlength, List.take_left]
  rw [hbefore]
  exact ⟨_, List.mem_cons_of_mem _ List.mem_cons_self, "c", by decide +kernel, by decide +kernel⟩

theorem matched_rooms {s : DaemonState} (h : s.agents = tornRoom.agents) :
    s.DistinctIds ∧ ∀ agent roomId, Matched (room (s.messagesOf agent) roomId) := by
  have hmessages : ∀ agent, s.messagesOf agent = if "agent" = agent then tornTurn ++ longTurn else [] := by
    intro agent
    unfold messagesOf
    rw [h]
    unfold tornRoom
    simp only
    rw [Table.getElem?_insert_eq]
    split_ifs
    · rfl
    · simp
  have hnil : Matched [] := ⟨noOrphan_nil, fun _ hturn => absurd hturn List.not_mem_nil⟩
  have hroom : ∀ x ∈ tornTurn ++ longTurn, x.roomId = "room" := by decide +kernel
  refine ⟨fun agent => ?_, fun agent roomId => ?_⟩
  · rw [hmessages]
    split_ifs
    · exact torn_distinct
    · exact List.nodup_nil
  · rw [hmessages]
    split_ifs
    · by_cases hid : "room" = roomId
      · rw [show room (tornTurn ++ longTurn) roomId = tornTurn ++ longTurn from
          List.filter_eq_self.mpr fun x hx => by rw [hroom x hx, decide_eq_true hid]]
        exact torn_matched
      · rw [show room (tornTurn ++ longTurn) roomId = [] from
          List.filter_eq_nil_iff.mpr fun x hx => by rw [hroom x hx, decide_eq_true_eq]; exact hid]
        exact hnil
    · exact hnil

end Sample

/-- Before the store is reconciled nothing is orphaned. -/
theorem unreconciled_room_keeps_result :
    NoOrphan (room ((Sample.unreconciledRoom.pruneHotTail id 86400002).2.messagesOf "agent") "room") := by
  obtain ⟨hdistinct, hmatched⟩ := Sample.matched_rooms (s := Sample.unreconciledRoom) rfl
  exact (no_orphans_iff hdistinct hmatched).mpr (.inl fun hpruning => absurd hpruning.2 (by decide)) "agent" "room"

/-- A day later the question and the call leave, and the result stays. -/
theorem torn_room_orphans_result :
    ¬ ∀ (s : DaemonState) (now : ℕ), s.DistinctIds → (∀ agent roomId, Matched (room (s.messagesOf agent) roomId)) →
      ∀ agent roomId, NoOrphan (room ((s.pruneHotTail id now).2.messagesOf agent) roomId) := by
  intro h
  obtain ⟨hdistinct, hmatched⟩ := Sample.matched_rooms (s := Sample.tornRoom) rfl
  have hleft := h Sample.tornRoom 86400002 hdistinct hmatched "agent" "room"
  have hfirst : (room ((Sample.tornRoom.pruneHotTail id 86400002).2.messagesOf "agent") "room").head? = some Sample.result := by
    decide +kernel
  obtain ⟨rest, hsplit⟩ := List.head?_eq_some_iff.mp hfirst
  obtain ⟨call, hcall, -⟩ := hleft [] Sample.result rest hsplit rfl
  exact List.not_mem_nil hcall

end DaemonState

end AnimaCore.HotTail
