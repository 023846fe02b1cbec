import AnimaCore.HotTail

/-!
# AnimaCore.HotTail.Rooms — which messages leave a room

A room is what stands before its first user message, and its turns.
-/

namespace AnimaCore.HotTail

open Lib RunDelta

/-! ## Turns -/

def beforeTurns (messages : List Message) : List Message := (segments startsTurn messages).1

def turns (messages : List Message) : List (List Message) := (segments startsTurn messages).2

def Turn (turn : List Message) : Prop := Segment startsTurn turn

def silent (turn : List Message) : Bool := !(closeGroup turn (opening turn)).isEmpty

def Distinct (messages : List Message) : Prop := (messages.map (·.id)).Nodup

theorem turns_join (messages : List Message) : beforeTurns messages ++ (turns messages).flatten = messages :=
  segments_join messages

theorem turn_of_mem {messages turn : List Message} (h : turn ∈ turns messages) : Turn turn := segment_of_mem messages turn h

theorem Distinct.inj {messages : List Message} (h : Distinct messages) {x y : Message} (hx : x ∈ messages) (hy : y ∈ messages)
    (hid : x.id = y.id) : x = y := List.inj_on_of_nodup_map h hx hy hid

theorem Distinct.sublist {l messages : List Message} (h : Distinct messages) (hl : l.Sublist messages) : Distinct l :=
  List.Nodup.sublist (hl.map _) h

theorem hiddenMessageIds_eq (messages : List Message) :
    hiddenMessageIds messages = closeGroup (beforeTurns messages) .missing ++
      (turns messages).flatMap fun turn => closeGroup turn (opening turn) := by
  obtain ⟨hfirst, hslices⟩ : messages.take ((starts startsTurn messages).head?.getD messages.length) =
        (segments startsTurn messages).1 ∧
      ((starts startsTurn messages).zip ((starts startsTurn messages).tail ++ [messages.length])).map
        (fun e => (messages.drop e.1).take (e.2 - e.1)) = (segments startsTurn messages).2 := slices_starts messages
  unfold hiddenMessageIds beforeTurns turns turnStarts
  simp only
  rw [hfirst, ← hslices, List.flatMap_map]

theorem closeGroup_opening_cases (turn : List Message) :
    closeGroup turn (opening turn) = [] ∨ closeGroup turn (opening turn) = turn.map (·.id) := by
  unfold closeGroup opening
  split
  · exact .inl rfl
  · by_cases hopen : turn.head?.any isCheckinMessage = true
    · rw [if_pos hopen]
      split_ifs
      · exact .inr rfl
      · exact .inl rfl
    · rw [if_neg hopen]
      split_ifs
      · exact .inl rfl
      · exact .inl rfl

theorem closeGroup_opening (turn : List Message) :
    closeGroup turn (opening turn) = if silent turn then turn.map (·.id) else [] := by
  unfold silent
  rcases closeGroup_opening_cases turn with h | h
  · simp [h]
  · rcases turn with _ | ⟨x, rest⟩
    · simp [h]
    · simp [h]

theorem closeGroup_missing (group : List Message) :
    closeGroup group .missing = [] ∨ ∃ reply ∈ group, reply.role = .assistant ∧
      isSilentCheckinReply reply.content.text = true ∧ closeGroup group .missing = [reply.id] := by
  unfold closeGroup
  split
  · exact .inl rfl
  · rename_i reply hfind
    by_cases hsilent : isSilentCheckinReply reply.content.text = true
    · have hmem := List.mem_of_find?_eq_some hfind
      have hrole := List.find?_some hfind
      rw [if_pos hsilent]
      exact .inr ⟨reply, List.mem_reverse.mp hmem, by simpa using hrole, hsilent, rfl⟩
    · rw [if_neg hsilent]
      exact .inl rfl

theorem mem_of_mem_turn {messages turn : List Message} (h : turn ∈ turns messages) {x : Message} (hx : x ∈ turn) :
    x ∈ messages := by
  rw [← turns_join messages]
  exact List.mem_append.mpr (.inr (List.mem_flatten.mpr ⟨turn, h, hx⟩))

theorem mem_of_mem_before {messages : List Message} {x : Message} (hx : x ∈ beforeTurns messages) : x ∈ messages := by
  rw [← turns_join messages]
  exact List.mem_append.mpr (.inl hx)

section

variable {messages : List Message} (hdistinct : Distinct messages)

include hdistinct

theorem distinct_parts : Distinct (beforeTurns messages ++ (turns messages).flatten) := by
  rw [turns_join]
  exact hdistinct

theorem turn_unique {turn turn' : List Message} (h : turn ∈ turns messages) (h' : turn' ∈ turns messages) {x : Message}
    (hx : x ∈ turn) (hx' : x ∈ turn') : turn = turn' := by
  have hflat : (turns messages).flatten.Nodup := by
    have := (distinct_parts hdistinct).of_map
    exact (List.nodup_append.mp this).2.1
  have hpair := (List.nodup_flatten.mp hflat).2
  by_contra hne
  have hsymm : Std.Symm (List.Disjoint (α := Message)) := ⟨fun _ _ h => h.symm⟩
  exact hpair.forall h h' hne hx hx'

theorem before_turn_ne {x : Message} (hx : x ∈ beforeTurns messages) {turn : List Message} (h : turn ∈ turns messages)
    {y : Message} (hy : y ∈ turn) : x.id ≠ y.id := by
  have := distinct_parts hdistinct
  unfold Distinct at this
  rw [List.map_append, List.nodup_append] at this
  exact this.2.2 _ (List.mem_map_of_mem hx) _ (List.mem_map_of_mem (List.mem_flatten.mpr ⟨turn, h, hy⟩))

theorem mem_hidden_turn {turn : List Message} (h : turn ∈ turns messages) {x : Message} (hx : x ∈ turn) :
    x.id ∈ hiddenMessageIds messages ↔ silent turn = true := by
  rw [hiddenMessageIds_eq, List.mem_append, List.mem_flatMap]
  constructor
  · rintro (hbefore | ⟨turn', hturn', hmem⟩)
    · rcases closeGroup_missing (beforeTurns messages) with hnil | ⟨reply, hreply, -, -, hone⟩
      · rw [hnil] at hbefore
        exact absurd hbefore List.not_mem_nil
      · rw [hone, List.mem_singleton] at hbefore
        exact absurd hbefore.symm (before_turn_ne hdistinct hreply h hx)
    · rw [closeGroup_opening] at hmem
      split_ifs at hmem with hsilent
      · obtain ⟨y, hy, hid⟩ := List.mem_map.mp hmem
        have hyx : y = x :=
          hdistinct.inj (mem_of_mem_turn hturn' hy) (mem_of_mem_turn h hx) hid
        rw [hyx] at hy
        rw [turn_unique hdistinct h hturn' hx hy]
        exact hsilent
      · exact absurd hmem List.not_mem_nil
  · intro hsilent
    refine .inr ⟨turn, h, ?_⟩
    rw [closeGroup_opening, if_pos hsilent]
    exact List.mem_map_of_mem hx

theorem mem_hidden_before {x : Message} (hx : x ∈ beforeTurns messages) :
    x.id ∈ hiddenMessageIds messages ↔ x.id ∈ closeGroup (beforeTurns messages) .missing := by
  rw [hiddenMessageIds_eq, List.mem_append]
  refine ⟨?_, .inl⟩
  rintro (hmem | hmem)
  · exact hmem
  · obtain ⟨turn, hturn, hmem⟩ := List.mem_flatMap.mp hmem
    rw [closeGroup_opening] at hmem
    split_ifs at hmem
    · obtain ⟨y, hy, hid⟩ := List.mem_map.mp hmem
      exact absurd hid.symm (before_turn_ne hdistinct hx hturn hy)
    · exact absurd hmem List.not_mem_nil

end

/-! ## Silent turns -/

section

variable {hidden : List String} {x : Message}

theorem silentStep_visible (h : x.id ∉ hidden) (acc : List (List Message) × List Message) :
    silentStep hidden acc x = (closedTurns acc, []) := by
  unfold silentStep
  rw [if_pos (by simpa using h)]

theorem silentStep_start (h : x.id ∈ hidden) (hstart : startsTurn x = true) (acc : List (List Message) × List Message) :
    silentStep hidden acc x = (closedTurns acc, [x]) := by
  unfold silentStep
  rw [if_neg (by simpa using h), if_pos hstart]

theorem silentStep_more (h : x.id ∈ hidden) (hstart : startsTurn x = false) (acc : List (List Message) × List Message) :
    silentStep hidden acc x = (acc.1, acc.2 ++ [x]) := by
  unfold silentStep
  rw [if_neg (by simpa using h), if_neg (by simp [hstart])]

end

theorem foldl_silentStep_visible {hidden : List String} {l : List Message} (h : ∀ x ∈ l, x.id ∉ hidden)
    (acc : List (List Message) × List Message) :
    closedTurns (l.foldl (silentStep hidden) acc) = closedTurns acc := by
  induction l generalizing acc with
  | nil => rfl
  | cons x l ih =>
    rw [List.foldl_cons, silentStep_visible (h x List.mem_cons_self), ih fun y hy => h y (List.mem_cons_of_mem _ hy)]
    rfl

theorem foldl_silentStep_idle {hidden : List String} {l : List Message} (h : ∀ x ∈ l, x.id ∉ hidden) :
    l.foldl (silentStep hidden) ([], []) = ([], []) := by
  induction l with
  | nil => rfl
  | cons x l ih =>
    rw [List.foldl_cons, silentStep_visible (h x List.mem_cons_self)]
    exact ih fun y hy => h y (List.mem_cons_of_mem _ hy)

theorem foldl_silentStep_hidden {hidden : List String} {l : List Message} (h : ∀ x ∈ l, x.id ∈ hidden)
    (hstart : ∀ x ∈ l, startsTurn x = false) (closed : List (List Message)) (current : List Message) :
    l.foldl (silentStep hidden) (closed, current) = (closed, current ++ l) := by
  induction l generalizing current with
  | nil => simp
  | cons x l ih =>
    rw [List.foldl_cons, silentStep_more (h x List.mem_cons_self) (hstart x List.mem_cons_self),
      ih (fun y hy => h y (List.mem_cons_of_mem _ hy)) fun y hy => hstart y (List.mem_cons_of_mem _ hy)]
    simp

theorem foldl_silentStep_turns {hidden : List String} {l : List (List Message)} (hturns : ∀ turn ∈ l, Turn turn)
    (hhidden : ∀ turn ∈ l, ∀ x ∈ turn, x.id ∈ hidden ↔ silent turn = true) (acc : List (List Message) × List Message) :
    closedTurns (l.flatten.foldl (silentStep hidden) acc) = closedTurns acc ++ l.filter silent := by
  induction l generalizing acc with
  | nil => simp
  | cons turn l ih =>
    rw [List.flatten_cons, List.foldl_append, ih (fun t ht => hturns t (List.mem_cons_of_mem _ ht))
      fun t ht => hhidden t (List.mem_cons_of_mem _ ht), List.filter_cons]
    have hturn := hhidden turn List.mem_cons_self
    by_cases hsilent : silent turn = true
    · obtain ⟨a, rest, rfl, ha, hrest⟩ := hturns turn List.mem_cons_self
      rw [List.foldl_cons, silentStep_start ((hturn a List.mem_cons_self).mpr hsilent) ha, foldl_silentStep_hidden
        (fun x hx => (hturn x (List.mem_cons_of_mem _ hx)).mpr hsilent) hrest, if_pos hsilent]
      simp [closedTurns]
    · rw [if_neg hsilent, foldl_silentStep_visible fun x hx hmem => hsilent ((hturn x hx).mp hmem)]

theorem filter_hidden_eq_nil {hidden : List String} {l : List Message} (h : ∀ x ∈ l, x.id ∉ hidden) :
    (l.filter fun x => hidden.contains x.id) = [] := by
  rw [List.filter_eq_nil_iff]
  intro x hx
  simpa using h x hx

theorem foldl_silentStep_before {hidden : List String} {l : List Message} (hnodup : l.Nodup)
    (hstart : ∀ x ∈ l, startsTurn x = false) (hone : ∀ x ∈ l, ∀ y ∈ l, x.id ∈ hidden → y.id ∈ hidden → x = y) :
    closedTurns (l.foldl (silentStep hidden) ([], [])) = (l.filter fun x => hidden.contains x.id).map ([·]) := by
  by_cases hsome : ∃ x ∈ l, x.id ∈ hidden
  · obtain ⟨x, hx, hhidden⟩ := hsome
    obtain ⟨before, after, rfl⟩ := List.append_of_mem hx
    have hnot : ∀ y ∈ before ++ after, y.id ∉ hidden := by
      intro y hy hmem
      have hyx := hone y (by grind) x hx hmem hhidden
      rw [List.nodup_middle, List.nodup_cons] at hnodup
      rw [hyx] at hy
      exact hnodup.1 hy
    have hbefore : ∀ y ∈ before, y.id ∉ hidden := fun y hy => hnot y (List.mem_append.mpr (.inl hy))
    have hafter : ∀ y ∈ after, y.id ∉ hidden := fun y hy => hnot y (List.mem_append.mpr (.inr hy))
    rw [List.foldl_append, List.foldl_cons, foldl_silentStep_idle hbefore, silentStep_more hhidden (hstart x hx),
      foldl_silentStep_visible hafter, List.filter_append, List.filter_cons, filter_hidden_eq_nil hbefore,
      filter_hidden_eq_nil hafter]
    simp [hhidden, closedTurns]
  · have hnone : ∀ x ∈ l, x.id ∉ hidden := fun x hx hmem => hsome ⟨x, hx, hmem⟩
    rw [foldl_silentStep_visible hnone, filter_hidden_eq_nil hnone]
    rfl

theorem silentTurns_eq {messages : List Message} (hdistinct : Distinct messages) :
    silentTurns messages (hiddenMessageIds messages) =
      ((beforeTurns messages).filter fun x => (hiddenMessageIds messages).contains x.id).map ([·]) ++
        (turns messages).filter silent := by
  have hsplit : messages.foldl (silentStep (hiddenMessageIds messages)) ([], []) =
      (turns messages).flatten.foldl (silentStep (hiddenMessageIds messages))
        ((beforeTurns messages).foldl (silentStep (hiddenMessageIds messages)) ([], [])) := by
    rw [← List.foldl_append, turns_join]
  unfold silentTurns
  rw [hsplit, foldl_silentStep_turns (fun turn h => turn_of_mem h) fun turn h x hx => mem_hidden_turn hdistinct h hx,
    foldl_silentStep_before]
  · have := (distinct_parts hdistinct).of_map
    exact (List.nodup_append.mp this).1
  · exact mark_of_mem_fst messages
  · intro x hx y hy hhx hhy
    rw [mem_hidden_before hdistinct hx] at hhx
    rw [mem_hidden_before hdistinct hy] at hhy
    rcases closeGroup_missing (beforeTurns messages) with hnil | ⟨reply, -, -, -, hone⟩
    · rw [hnil] at hhx
      exact absurd hhx List.not_mem_nil
    · rw [hone, List.mem_singleton] at hhx hhy
      exact hdistinct.inj (mem_of_mem_before hx) (mem_of_mem_before hy) (hhx.trans hhy.symm)

/-! ## The window -/

def visibleCount (hidden : List String) (l : List Message) : ℕ := l.countP fun x => !hidden.contains x.id

theorem visibleCount_append (hidden : List String) (l r : List Message) :
    visibleCount hidden (l ++ r) = visibleCount hidden l + visibleCount hidden r := List.countP_append

theorem visibleCount_le (hidden : List String) (l : List Message) : visibleCount hidden l ≤ l.length := List.countP_le_length

theorem visibleCount_sublist (hidden : List String) {l r : List Message} (h : l.Sublist r) :
    visibleCount hidden l ≤ visibleCount hidden r := h.countP_le

theorem windowEdge_spec (messages : List Message) (hidden : List String) (n count : ℕ) (hn : n ≤ messages.length)
    (hcount : count < hotTailMessages) :
    (windowEdge messages hidden n count = 0 ∧ count + visibleCount hidden (messages.take n) < hotTailMessages) ∨
    ∃ x, windowEdge messages hidden n count < n ∧ messages[windowEdge messages hidden n count]? = some x ∧ x.id ∉ hidden ∧
      count + visibleCount hidden ((messages.take n).drop (windowEdge messages hidden n count)) = hotTailMessages := by
  induction n generalizing count with
  | zero => exact .inl ⟨rfl, by simpa [visibleCount] using hcount⟩
  | succ edge ih =>
    obtain ⟨x, hx⟩ : ∃ x, messages[edge]? = some x := ⟨_, List.getElem?_eq_getElem (by omega)⟩
    have htake : messages.take (edge + 1) = messages.take edge ++ [x] := by
      rw [List.take_add_one, hx]
      rfl
    have hlen : (messages.take edge).length = edge := by
      rw [List.length_take]
      omega
    rw [windowEdge, if_pos hcount, hx]
    simp only [Option.any_some]
    by_cases hhidden : x.id ∈ hidden
    · rw [if_neg (by simpa using hhidden)]
      have hone : visibleCount hidden [x] = 0 := by simp [visibleCount, hhidden]
      rcases ih count (by omega) hcount with ⟨hzero, hfew⟩ | ⟨y, hlt, hy, hvisible, henough⟩
      · refine .inl ⟨hzero, ?_⟩
        rw [htake, visibleCount_append, hone]
        exact hfew
      · refine .inr ⟨y, by omega, hy, hvisible, ?_⟩
        rw [htake, List.drop_append_of_le_length (by omega), visibleCount_append, hone]
        exact henough
    · rw [if_pos (by simpa using hhidden)]
      have hone : visibleCount hidden [x] = 1 := by simp [visibleCount, hhidden]
      by_cases hlast : count + 1 < hotTailMessages
      · rcases ih (count + 1) (by omega) hlast with ⟨hzero, hfew⟩ | ⟨y, hlt, hy, hvisible, henough⟩
        · refine .inl ⟨hzero, ?_⟩
          rw [htake, visibleCount_append, hone]
          omega
        · refine .inr ⟨y, by omega, hy, hvisible, ?_⟩
          rw [htake, List.drop_append_of_le_length (by omega), visibleCount_append, hone]
          omega
      · -- The window is full with this message.
        have hstop : windowEdge messages hidden edge (count + 1) = edge := by
          rcases edge with _ | edge
          · rfl
          · rw [windowEdge, if_neg hlast]
        rw [hstop]
        refine .inr ⟨x, by omega, hx, hhidden, ?_⟩
        rw [htake, List.drop_append_of_le_length (by omega), List.drop_of_length_le (by omega), List.nil_append, hone]
        omega

theorem edge_spec (messages : List Message) (hidden : List String) :
    (windowEdge messages hidden messages.length 0 = 0 ∧ visibleCount hidden messages < hotTailMessages) ∨
    ∃ before x after, messages = before ++ x :: after ∧ windowEdge messages hidden messages.length 0 = before.length ∧
      x.id ∉ hidden ∧ visibleCount hidden (x :: after) = hotTailMessages := by
  have hspec := windowEdge_spec messages hidden messages.length 0 le_rfl (by decide)
  rw [List.take_length] at hspec
  rcases hspec with ⟨hzero, hfew⟩ | ⟨x, hlt, hx, hvisible, henough⟩
  · exact .inl ⟨hzero, by simpa using hfew⟩
  · generalize windowEdge messages hidden messages.length 0 = edge at *
    have hdrop : messages.drop edge = x :: messages.drop (edge + 1) := by
      rw [List.drop_eq_getElem_cons hlt]
      rw [List.getElem?_eq_getElem hlt] at hx
      rw [Option.some.inj hx]
    refine .inr ⟨messages.take edge, x, messages.drop (edge + 1), ?_, ?_, hvisible, ?_⟩
    · rw [← hdrop, List.take_append_drop]
    · rw [List.length_take]
      omega
    · rw [hdrop] at henough
      simpa using henough

theorem outside_of_few {before : List Message} {rest : List Message} (hbefore : ∀ x ∈ before, startsTurn x = false)
    {hidden : List String} (hfew : visibleCount hidden rest < hotTailMessages) :
    outsideNewestVisible (before ++ rest) hidden = [] := by
  have hnone : ((turnStarts (before ++ rest)).reverse.find?
      (· ≤ windowEdge (before ++ rest) hidden (before ++ rest).length 0)).getD 0 = 0 := by
    rcases edge_spec (before ++ rest) hidden with ⟨hzero, -⟩ | ⟨front, x, after, hsplit, hedge, -, henough⟩
    · rw [hzero]
      unfold Option.getD
      split
      · rename_i start hfind
        simpa using List.find?_some hfind
      · rfl
    · rw [hedge]
      -- The edge stands before the first turn: from there on there are more visible messages than the turns have.
      have hlt : front.length < before.length := by
        by_contra hle
        have hsuffix : x :: after <:+ rest := by
          have hdrop := congrArg (List.drop front.length) hsplit
          rw [List.drop_append, List.drop_of_length_le (by omega), List.nil_append, List.drop_left] at hdrop
          rw [← hdrop]
          exact List.drop_suffix _ _
        have := visibleCount_sublist hidden hsuffix.sublist
        omega
      unfold turnStarts
      rw [find_last_start_of_unmarked hbefore hlt]
      rfl
  unfold outsideNewestVisible
  simp only
  rw [hnone]
  exact List.take_zero

theorem outside_of_turn {before turn after : List Message} (hturn : Turn turn) {hidden : List String}
    (hfew : visibleCount hidden after < hotTailMessages) (henough : hotTailMessages ≤ visibleCount hidden (turn ++ after)) :
    outsideNewestVisible (before ++ turn ++ after) hidden = before := by
  rcases edge_spec (before ++ turn ++ after) hidden with ⟨-, hall⟩ | ⟨front, x, rest, hsplit, hedge, hx, hcount⟩
  · rw [List.append_assoc, visibleCount_append] at hall
    omega
  · have hlow : before.length ≤ front.length := by
      by_contra hlt
      have hdrop := congrArg (List.drop before.length) hsplit
      rw [List.append_assoc, List.drop_left, List.drop_append, List.drop_of_length_le (by omega), List.nil_append] at hdrop
      obtain ⟨k, hk⟩ : ∃ k, before.length - front.length = k + 1 := ⟨before.length - front.length - 1, by omega⟩
      rw [hk, List.drop_succ_cons] at hdrop
      have hsub := visibleCount_sublist hidden (List.drop_sublist k rest)
      rw [← hdrop] at hsub
      have hone : visibleCount hidden (x :: rest) = visibleCount hidden rest + 1 := by simp [visibleCount, hx]
      omega
    have hhigh : front.length < before.length + turn.length := by
      by_contra hle
      have hdrop := congrArg (List.drop front.length) hsplit
      rw [List.drop_append, List.drop_of_length_le (by rw [List.length_append]; omega), List.nil_append,
        List.drop_left] at hdrop
      have hsub := visibleCount_sublist hidden
        (List.drop_sublist (front.length - (before ++ turn).length) after)
      rw [hdrop] at hsub
      omega
    unfold outsideNewestVisible
    simp only
    rw [hedge]
    unfold turnStarts
    rw [find_last_start hturn hlow hhigh, Option.getD_some, List.append_assoc, List.take_left]

theorem window_cases (hidden : List String) (l : List (List Message)) :
    visibleCount hidden l.flatten < hotTailMessages ∨
    ∃ older turn newer, l = older ++ turn :: newer ∧ visibleCount hidden newer.flatten < hotTailMessages ∧
      hotTailMessages ≤ visibleCount hidden (turn ++ newer.flatten) := by
  induction l with
  | nil => exact .inl (by simp [visibleCount, hotTailMessages])
  | cons turn l ih =>
    rcases ih with hfew | ⟨older, turn', newer, rfl, hfew, henough⟩
    · by_cases hall : visibleCount hidden (turn :: l).flatten < hotTailMessages
      · exact .inl hall
      · exact .inr ⟨[], turn, l, rfl, hfew, by simpa using hall⟩
    · exact .inr ⟨turn :: older, turn', newer, rfl, hfew, henough⟩

/-- The message stands before the turn that holds the oldest of the newest visible messages. -/
def BeforeWindow (messages : List Message) (x : Message) : Prop :=
  ∃ front turn after, messages = front ++ turn ++ after ∧ x ∈ front ∧ Turn turn ∧
    visibleCount (hiddenMessageIds messages) after < hotTailMessages ∧
    hotTailMessages ≤ visibleCount (hiddenMessageIds messages) (turn ++ after)

theorem mem_outside_iff {messages : List Message} {x : Message} :
    x ∈ outsideNewestVisible messages (hiddenMessageIds messages) ↔ BeforeWindow messages x := by
  constructor
  · intro hx
    rcases window_cases (hiddenMessageIds messages) (turns messages) with hfew | ⟨older, turn, newer, hsplit, hfew, henough⟩
    · have hout : outsideNewestVisible (beforeTurns messages ++ (turns messages).flatten) (hiddenMessageIds messages) = [] :=
        outside_of_few (mark_of_mem_fst messages) hfew
      rw [turns_join] at hout
      rw [hout] at hx
      exact absurd hx List.not_mem_nil
    · have hturn : Turn turn := turn_of_mem (by rw [hsplit]; simp)
      have hroom : (beforeTurns messages ++ older.flatten) ++ turn ++ newer.flatten = messages := by
        conv_rhs => rw [← turns_join messages, hsplit]
        simp
      have hout : outsideNewestVisible ((beforeTurns messages ++ older.flatten) ++ turn ++ newer.flatten)
          (hiddenMessageIds messages) = beforeTurns messages ++ older.flatten := outside_of_turn hturn hfew henough
      rw [hroom] at hout
      rw [hout] at hx
      exact ⟨_, turn, newer.flatten, hroom.symm, hx, hturn, hfew, henough⟩
  · rintro ⟨front, turn, after, hsplit, hx, hturn, hfew, henough⟩
    have hout : outsideNewestVisible (front ++ turn ++ after) (hiddenMessageIds messages) = front :=
      outside_of_turn hturn hfew henough
    rw [← hsplit] at hout
    rw [hout]
    exact hx

theorem window_of_outside {messages : List Message}
    (h : outsideNewestVisible messages (hiddenMessageIds messages) ≠ []) :
    ∃ older turn newer, turns messages = older ++ turn :: newer ∧
      outsideNewestVisible messages (hiddenMessageIds messages) = beforeTurns messages ++ older.flatten := by
  rcases window_cases (hiddenMessageIds messages) (turns messages) with hfew | ⟨older, turn, newer, hsplit, hfew, henough⟩
  · have hout : outsideNewestVisible (beforeTurns messages ++ (turns messages).flatten) (hiddenMessageIds messages) = [] :=
      outside_of_few (mark_of_mem_fst messages) hfew
    rw [turns_join] at hout
    exact absurd hout h
  · have hturn : Turn turn := turn_of_mem (by rw [hsplit]; simp)
    have hroom : (beforeTurns messages ++ older.flatten) ++ turn ++ newer.flatten = messages := by
      conv_rhs => rw [← turns_join messages, hsplit]
      simp
    have hout : outsideNewestVisible ((beforeTurns messages ++ older.flatten) ++ turn ++ newer.flatten)
        (hiddenMessageIds messages) = beforeTurns messages ++ older.flatten := outside_of_turn hturn hfew henough
    rw [hroom] at hout
    exact ⟨older, turn, newer, hsplit, hout⟩

def newestVisible (messages : List Message) : List Message :=
  (messages.filter fun x => !(hiddenMessageIds messages).contains x.id).rtake hotTailMessages

theorem newestVisible_inside {messages : List Message} (hnodup : messages.Nodup) {x : Message}
    (hx : x ∈ newestVisible messages) :
    x.id ∉ hiddenMessageIds messages ∧ x ∉ outsideNewestVisible messages (hiddenMessageIds messages) := by
  have hvisible : x.id ∉ hiddenMessageIds messages := by
    have := (List.mem_filter.mp (List.mem_of_mem_drop hx)).2
    simpa using this
  refine ⟨hvisible, fun hout => ?_⟩
  obtain ⟨front, turn, after, hsplit, hfront, -, -, henough⟩ := mem_outside_iff.mp hout
  unfold newestVisible List.rtake at hx
  generalize hiddenMessageIds messages = hidden at *
  rw [hsplit, List.append_assoc, List.filter_append] at hx
  rw [hsplit, List.append_assoc] at hnodup
  have hcount : hotTailMessages ≤ ((turn ++ after).filter fun x => !hidden.contains x.id).length := by
    rw [← List.countP_eq_length_filter]
    exact henough
  rw [List.drop_append, List.length_append, List.drop_of_length_le (by omega), List.nil_append] at hx
  have hrest := List.mem_of_mem_filter (List.mem_of_mem_drop hx)
  exact (List.nodup_append.mp hnodup).2.2 x hfront x hrest rfl

/-! ## What a pass leaves -/

section

variable (eligible : Message → Bool) (messages : List Message)

def kept : List Message := messages.filter fun x => !(pruneRoom eligible messages).prunable.contains x.id

/-- A turn that a pass leaves wherever it stands. -/
def keptTurn (turn : List Message) : Bool := !(silent turn && turn.all eligible)

end

section

variable {eligible : Message → Bool} {messages : List Message}

theorem silentPrunable_spec (hdistinct : Distinct messages) (x : Message) :
    x ∈ silentPrunable eligible messages ↔
      (x ∈ beforeTurns messages ∧ x.id ∈ hiddenMessageIds messages ∧ eligible x = true) ∨
      ∃ turn ∈ turns messages, x ∈ turn ∧ silent turn = true ∧ turn.all eligible = true := by
  unfold silentPrunable
  rw [silentTurns_eq hdistinct, List.filter_append, List.flatten_append, List.mem_append, List.mem_flatten,
    List.mem_flatten]
  refine or_congr ⟨?_, ?_⟩ ⟨?_, ?_⟩
  · rintro ⟨turn, hturn, hx⟩
    obtain ⟨hmem, hall⟩ := List.mem_filter.mp hturn
    obtain ⟨y, hy, rfl⟩ := List.mem_map.mp hmem
    obtain rfl := List.mem_singleton.mp hx
    obtain ⟨hbefore, hhidden⟩ := List.mem_filter.mp hy
    exact ⟨hbefore, by simpa using hhidden, by simpa using hall⟩
  · rintro ⟨hbefore, hhidden, helig⟩
    refine ⟨[x], List.mem_filter.mpr ⟨List.mem_map.mpr ⟨x, ?_, rfl⟩, by simpa using helig⟩, List.mem_singleton_self x⟩
    exact List.mem_filter.mpr ⟨hbefore, by simpa using hhidden⟩
  · rintro ⟨turn, hturn, hx⟩
    obtain ⟨hmem, hall⟩ := List.mem_filter.mp hturn
    obtain ⟨hin, hsilent⟩ := List.mem_filter.mp hmem
    exact ⟨turn, hin, hx, hsilent, hall⟩
  · rintro ⟨turn, hin, hx, hsilent, hall⟩
    exact ⟨turn, List.mem_filter.mpr ⟨List.mem_filter.mpr ⟨hin, hsilent⟩, hall⟩, hx⟩

theorem silentPrunable_sub (hdistinct : Distinct messages) {x : Message} (h : x ∈ silentPrunable eligible messages) :
    x ∈ messages ∧ eligible x = true ∧ x.id ∈ hiddenMessageIds messages := by
  rcases (silentPrunable_spec hdistinct x).mp h with ⟨hbefore, hhidden, helig⟩ | ⟨turn, hturn, hx, hsilent, hall⟩
  · exact ⟨mem_of_mem_before hbefore, helig, hhidden⟩
  · exact ⟨mem_of_mem_turn hturn hx, List.all_eq_true.mp hall x hx, (mem_hidden_turn hdistinct hturn hx).mpr hsilent⟩

/-- A hidden turn, or the hidden message before the first turn. -/
def SilentTurn (messages turn : List Message) : Prop :=
  (turn ∈ turns messages ∨ ∃ x ∈ beforeTurns messages, turn = [x]) ∧ ∀ y ∈ turn, y.id ∈ hiddenMessageIds messages

theorem mem_silentPrunable (hdistinct : Distinct messages) {x : Message} :
    x ∈ silentPrunable eligible messages ↔
      ∃ turn, SilentTurn messages turn ∧ x ∈ turn ∧ ∀ y ∈ turn, eligible y = true := by
  rw [silentPrunable_spec hdistinct]
  constructor
  · rintro (⟨hbefore, hhidden, helig⟩ | ⟨turn, hturn, hx, hsilent, hall⟩)
    · refine ⟨[x], ⟨.inr ⟨x, hbefore, rfl⟩, fun y hy => ?_⟩, List.mem_singleton_self x, fun y hy => ?_⟩
      · rw [List.mem_singleton.mp hy]
        exact hhidden
      · rw [List.mem_singleton.mp hy]
        exact helig
    · exact ⟨turn, ⟨.inl hturn, fun y hy => (mem_hidden_turn hdistinct hturn hy).mpr hsilent⟩, hx, List.all_eq_true.mp hall⟩
  · rintro ⟨turn, ⟨hturn | ⟨y, hy, rfl⟩, hhidden⟩, hx, hall⟩
    · exact .inr ⟨turn, hturn, hx, (mem_hidden_turn hdistinct hturn hx).mp (hhidden x hx), List.all_eq_true.mpr hall⟩
    · rw [List.mem_singleton.mp hx]
      exact .inl ⟨hy, hhidden y (List.mem_singleton_self y), hall y (List.mem_singleton_self y)⟩

theorem roomPrunable_eq (eligible : Message → Bool) (messages : List Message) :
    roomPrunable eligible messages = (outsideNewestVisible messages (hiddenMessageIds messages)).filter eligible := by
  unfold roomPrunable
  by_cases hlong : hotTailMessages < messages.length
  · rw [if_pos hlong]
  · rw [if_neg hlong]
    have hnone : outsideNewestVisible messages (hiddenMessageIds messages) = [] := by
      generalize hiddenMessageIds messages = hidden
      rcases window_cases hidden (turns messages) with hfew | ⟨older, turn, newer, hsplit, hfew, henough⟩
      · have hout : outsideNewestVisible (beforeTurns messages ++ (turns messages).flatten) hidden = [] :=
          outside_of_few (mark_of_mem_fst messages) hfew
        rwa [turns_join] at hout
      · have hturn : Turn turn := turn_of_mem (by rw [hsplit]; simp)
        have hroom : (beforeTurns messages ++ older.flatten) ++ turn ++ newer.flatten = messages := by
          conv_rhs => rw [← turns_join messages, hsplit]
          simp
        have hout : outsideNewestVisible ((beforeTurns messages ++ older.flatten) ++ turn ++ newer.flatten) hidden =
            beforeTurns messages ++ older.flatten := outside_of_turn hturn hfew henough
        rw [hroom] at hout
        have hlen := congrArg List.length hroom
        have hle := visibleCount_le hidden (turn ++ newer.flatten)
        rw [List.append_assoc, List.length_append] at hlen
        rw [hout]
        exact List.length_eq_zero_iff.mp (by omega)
    rw [hnone]
    rfl

theorem outside_sub {hidden : List String} {x : Message} (h : x ∈ outsideNewestVisible messages hidden) : x ∈ messages :=
  List.mem_of_mem_take h

theorem mem_prunable (hdistinct : Distinct messages) {x : Message} (hx : x ∈ messages) :
    (pruneRoom eligible messages).prunable.contains x.id = true ↔
      (x ∈ outsideNewestVisible messages (hiddenMessageIds messages) ∧ eligible x = true) ∨
      x ∈ silentPrunable eligible messages := by
  unfold pruneRoom
  rw [List.contains_iff_mem, List.mem_map, roomPrunable_eq]
  constructor
  · rintro ⟨y, hy, hid⟩
    rcases List.mem_append.mp hy with hwindow | hsilent
    · obtain ⟨hout, helig⟩ := List.mem_filter.mp hwindow
      obtain rfl := hdistinct.inj (outside_sub hout) hx hid
      exact .inl ⟨hout, helig⟩
    · obtain rfl := hdistinct.inj (silentPrunable_sub hdistinct hsilent).1 hx hid
      exact .inr hsilent
  · rintro (⟨hout, helig⟩ | hsilent)
    · exact ⟨x, List.mem_append.mpr (.inl (List.mem_filter.mpr ⟨hout, helig⟩)), rfl⟩
    · exact ⟨x, List.mem_append.mpr (.inr hsilent), rfl⟩

/-! ### The parts of what is left -/

theorem kept_outside (hdistinct : Distinct messages) {x : Message}
    (hx : x ∈ outsideNewestVisible messages (hiddenMessageIds messages)) :
    (pruneRoom eligible messages).prunable.contains x.id = eligible x := by
  rw [Bool.eq_iff_iff, mem_prunable hdistinct (outside_sub hx)]
  constructor
  · rintro (⟨-, helig⟩ | hsilent)
    · exact helig
    · exact (silentPrunable_sub hdistinct hsilent).2.1
  · exact fun helig => .inl ⟨hx, helig⟩

theorem kept_turn (hdistinct : Distinct messages) {turn : List Message} (hturn : turn ∈ turns messages)
    {x : Message} (hx : x ∈ turn) (hout : x ∉ outsideNewestVisible messages (hiddenMessageIds messages)) :
    (!(pruneRoom eligible messages).prunable.contains x.id) = keptTurn eligible turn := by
  unfold keptTurn
  refine congrArg (!·) (Bool.eq_iff_iff.mpr ?_)
  rw [mem_prunable hdistinct (mem_of_mem_turn hturn hx),
    silentPrunable_spec hdistinct, Bool.and_eq_true]
  constructor
  · rintro (⟨hin, -⟩ | ⟨hbefore, -, -⟩ | ⟨turn', hturn', hx', hsilent, hall⟩)
    · exact absurd hin hout
    · exact absurd rfl (before_turn_ne hdistinct hbefore hturn hx)
    · rw [turn_unique hdistinct hturn hturn' hx hx']
      exact ⟨hsilent, hall⟩
  · rintro ⟨hsilent, hall⟩
    exact .inr (.inr ⟨turn, hturn, hx, hsilent, hall⟩)

theorem filter_flatten_turns {p : Message → Bool} {q : List Message → Bool} {l : List (List Message)}
    (h : ∀ turn ∈ l, ∀ x ∈ turn, p x = q turn) : l.flatten.filter p = (l.filter q).flatten := by
  induction l with
  | nil => rfl
  | cons turn l ih =>
    rw [List.flatten_cons, List.filter_append, ih fun t ht => h t (List.mem_cons_of_mem _ ht), List.filter_cons]
    have hturn := h turn List.mem_cons_self
    by_cases hq : q turn = true
    · rw [if_pos hq, List.filter_eq_self.mpr fun x hx => (hturn x hx).trans hq]
      rfl
    · rw [if_neg hq, List.filter_eq_nil_iff.mpr fun x hx => by rw [hturn x hx]; exact hq]
      rfl

theorem kept_of_window (hdistinct : Distinct messages) {older newer : List (List Message)} {turn : List Message}
    (hsplit : turns messages = older ++ turn :: newer)
    (hout : outsideNewestVisible messages (hiddenMessageIds messages) = beforeTurns messages ++ older.flatten) :
    kept eligible messages = (beforeTurns messages ++ older.flatten).filter (fun x => !eligible x) ++
      ((turn :: newer).filter (keptTurn eligible)).flatten := by
  have hroom : messages = (beforeTurns messages ++ older.flatten) ++ (turn :: newer).flatten := by
    conv_lhs => rw [← turns_join messages, hsplit]
    simp
  have hnodup : ((beforeTurns messages ++ older.flatten) ++ (turn :: newer).flatten).Nodup := by
    rw [← hroom]
    exact hdistinct.of_map
  unfold kept
  conv_lhs => rw [hroom]
  rw [List.filter_append]
  congr 1
  · refine List.filter_congr fun x hx => ?_
    rw [← hroom, kept_outside hdistinct (hout ▸ hx)]
  · refine filter_flatten_turns fun t ht x hx => ?_
    rw [← hroom]
    refine kept_turn hdistinct ?_ hx ?_
    · rw [hsplit]
      exact List.mem_append.mpr (.inr ht)
    · rw [hout]
      intro hmem
      exact (List.nodup_append.mp hnodup).2.2 x hmem x (List.mem_flatten.mpr ⟨t, ht, hx⟩) rfl

theorem kept_of_few (hdistinct : Distinct messages)
    (hout : outsideNewestVisible messages (hiddenMessageIds messages) = []) :
    kept eligible messages =
      (beforeTurns messages).filter (fun x => !((hiddenMessageIds messages).contains x.id && eligible x)) ++
        ((turns messages).filter (keptTurn eligible)).flatten := by
  unfold kept
  conv_lhs => rw [← turns_join messages]
  rw [List.filter_append, turns_join]
  congr 1
  · refine List.filter_congr fun x hx => ?_
    refine congrArg (!·) (Bool.eq_iff_iff.mpr ?_)
    rw [mem_prunable hdistinct (mem_of_mem_before hx), hout, silentPrunable_spec hdistinct, Bool.and_eq_true, List.contains_iff_mem]
    constructor
    · rintro (⟨hnil, -⟩ | ⟨-, hhidden, helig⟩ | ⟨turn, hturn, hxt, -⟩)
      · exact absurd hnil List.not_mem_nil
      · exact ⟨hhidden, helig⟩
      · exact absurd rfl (before_turn_ne hdistinct hx hturn hxt)
    · rintro ⟨hhidden, helig⟩
      exact .inr (.inl ⟨hx, hhidden, helig⟩)
  · refine filter_flatten_turns fun t ht x hx => kept_turn hdistinct ht hx ?_
    rw [hout]
    exact List.not_mem_nil

/-! ### A second pass -/

theorem turns_append {front : List Message} {l : List (List Message)} (hl : ∀ turn ∈ l, Turn turn) :
    beforeTurns (front ++ l.flatten) = beforeTurns front ∧ turns (front ++ l.flatten) = turns front ++ l := by
  have hsegs : ∀ turn ∈ turns front ++ l, Turn turn := by
    intro turn hturn
    rcases List.mem_append.mp hturn with h | h
    · exact turn_of_mem h
    · exact hl turn h
  have hjoin : front ++ l.flatten = beforeTurns front ++ (turns front ++ l).flatten := by
    rw [List.flatten_append, ← List.append_assoc, turns_join]
  have hcut : segments startsTurn (front ++ l.flatten) = (beforeTurns front, turns front ++ l) := by
    rw [hjoin]
    exact segments_eq (mark_of_mem_fst front) hsegs
  unfold beforeTurns turns at *
  rw [hcut]
  exact ⟨rfl, rfl⟩

theorem visibleCount_turns {hidden : List String} {l : List (List Message)}
    (h : ∀ turn ∈ l, ∀ x ∈ turn, x.id ∈ hidden ↔ silent turn = true) :
    visibleCount hidden l.flatten = (l.filter fun turn => !silent turn).flatten.length := by
  unfold visibleCount
  rw [List.countP_eq_length_filter, filter_flatten_turns (q := fun turn => !silent turn)]
  intro turn hturn x hx
  refine congrArg (!·) (Bool.eq_iff_iff.mpr ?_)
  rw [List.contains_iff_mem]
  exact h turn hturn x hx

theorem filter_visible_keptTurn (eligible : Message → Bool) (l : List (List Message)) :
    (l.filter (keptTurn eligible)).filter (fun turn => !silent turn) = l.filter fun turn => !silent turn := by
  rw [List.filter_filter]
  refine List.filter_congr fun turn _ => ?_
  unfold keptTurn
  cases silent turn <;> simp

theorem mem_hidden_suffix {front : List Message} {l : List (List Message)} (hl : ∀ turn ∈ l, Turn turn)
    (hdistinct : Distinct (front ++ l.flatten)) :
    ∀ turn ∈ l, ∀ x ∈ turn, x.id ∈ hiddenMessageIds (front ++ l.flatten) ↔ silent turn = true := by
  intro turn hturn x hx
  refine mem_hidden_turn hdistinct ?_ hx
  rw [(turns_append hl).2]
  exact List.mem_append.mpr (.inr hturn)

theorem visibleCount_keptTurns {hidden hidden' : List String} {l : List (List Message)}
    (h : ∀ turn ∈ l, ∀ x ∈ turn, x.id ∈ hidden ↔ silent turn = true)
    (h' : ∀ turn ∈ l.filter (keptTurn eligible), ∀ x ∈ turn, x.id ∈ hidden' ↔ silent turn = true) :
    visibleCount hidden' (l.filter (keptTurn eligible)).flatten = visibleCount hidden l.flatten := by
  rw [visibleCount_turns h, visibleCount_turns h', filter_visible_keptTurn]

variable (eligible) in
theorem second_pass (hdistinct : Distinct messages) : roomPrunable eligible (kept eligible messages) = [] := by
  have hkept : Distinct (kept eligible messages) := hdistinct.sublist List.filter_sublist
  have hhidden : ∀ turn ∈ turns messages, ∀ x ∈ turn, x.id ∈ hiddenMessageIds messages ↔ silent turn = true :=
    fun turn h x hx => mem_hidden_turn hdistinct h hx
  have hstay : ∀ l : List (List Message), (∀ turn ∈ l, turn ∈ turns messages) →
      ∀ turn ∈ l.filter (keptTurn eligible), Turn turn :=
    fun l hl turn hturn => turn_of_mem (hl turn (List.mem_of_mem_filter hturn))
  rw [roomPrunable_eq]
  rcases window_cases (hiddenMessageIds messages) (turns messages) with hfew | ⟨older, turn, newer, hsplit, hfew, henough⟩
  · -- There is no window, and the turns that leave take no visible message with them.
    have hout : outsideNewestVisible (beforeTurns messages ++ (turns messages).flatten) (hiddenMessageIds messages) = [] :=
      outside_of_few (mark_of_mem_fst messages) hfew
    rw [turns_join] at hout
    rw [kept_of_few hdistinct hout] at hkept ⊢
    have hcount := visibleCount_keptTurns hhidden (mem_hidden_suffix (hstay _ fun _ h => h) hkept)
    rw [outside_of_few]
    · rfl
    · exact fun x hx => mark_of_mem_fst messages x (List.mem_of_mem_filter hx)
    · rw [hcount]
      exact hfew
  · -- The window begins with the same turn as before, and what stands before it is not eligible.
    have hin : ∀ t ∈ turn :: newer, t ∈ turns messages := by
      intro t ht
      rw [hsplit]
      exact List.mem_append.mpr (.inr ht)
    have hroom : (beforeTurns messages ++ older.flatten) ++ turn ++ newer.flatten = messages := by
      conv_rhs => rw [← turns_join messages, hsplit]
      simp
    have hout : outsideNewestVisible ((beforeTurns messages ++ older.flatten) ++ turn ++ newer.flatten)
        (hiddenMessageIds messages) = beforeTurns messages ++ older.flatten :=
      outside_of_turn (turn_of_mem (hin turn List.mem_cons_self)) hfew henough
    rw [hroom] at hout
    have hvisible : silent turn = false := by
      by_contra hsilent
      rw [Bool.not_eq_false] at hsilent
      have hzero : visibleCount (hiddenMessageIds messages) turn = 0 := by
        rw [visibleCount, List.countP_eq_zero]
        intro x hx
        simpa using (hhidden turn (hin turn List.mem_cons_self) x hx).mpr hsilent
      rw [visibleCount_append] at henough
      omega
    have hcons : (turn :: newer).filter (keptTurn eligible) = turn :: newer.filter (keptTurn eligible) := by
      rw [List.filter_cons, if_pos (by simp [keptTurn, hvisible])]
    rw [kept_of_window hdistinct hsplit hout] at hkept ⊢
    have hsuffix := mem_hidden_suffix (hstay _ hin) hkept
    have hall := visibleCount_keptTurns (fun t ht => hhidden t (hin t ht)) hsuffix
    have hrest := visibleCount_keptTurns (fun t ht => hhidden t (hin t (List.mem_cons_of_mem _ ht)))
      fun t ht => hsuffix t (by rw [hcons]; exact List.mem_cons_of_mem _ ht)
    rw [hcons, List.flatten_cons, List.flatten_cons, ← List.append_assoc] at hall
    rw [hcons, List.flatten_cons, ← List.append_assoc] at hrest ⊢
    rw [outside_of_turn (turn_of_mem (hin turn List.mem_cons_self)), List.filter_eq_nil_iff]
    · intro x hx
      simpa using (List.mem_filter.mp hx).2
    · omega
    · omega

end

end AnimaCore.HotTail
