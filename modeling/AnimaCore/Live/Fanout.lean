import AnimaCore.Base
import AnimaCore.Lib.Machine
import AnimaCore.Lib.Table

/-!
# AnimaCore.Live.Fanout — the streams that watch an agent

`live/fanout.rs`: one broadcast channel for each agent that is watched, with at most sixteen streams on it.

* Of a `tokio` broadcast channel this is used: a receiver gets what is sent after it subscribed, in order; of what it has not
  taken the channel keeps the newest `slots` values, and a receiver that fell behind is told how many it missed.
* A stream is kept with what it was sent (`due`) and what its reader was told.
* `World` is the hub with its streams, `Op` what may happen to them.  The lock makes each of them one step.
* `Exact`: the counts of the hub are those of the open streams, and every stream accounts for what it was sent.
  `step_exact`: one step keeps it.
-/

namespace AnimaCore.Live

open Lib

def maxEventSubscribersPerAgent : ℕ := 16

variable {ε : Type}

inductive LiveDelivery (ε : Type)
  | event (e : ε)
  | lagged (missed : ℕ)
  deriving DecidableEq

/-- `AgentChannel`, without its sender. -/
structure AgentChannel where
  subscribers : ℕ
  id : ℕ
  deriving DecidableEq

/-- `HubInner`, without the runs. -/
structure LiveHub where
  channels : Table String AgentChannel
  lagged : ℕ
  nextChannelId : ℕ
  closed : Bool

/-- `LiveSubscription`; `unread` is what its receiver has not taken yet. -/
structure LiveSubscription (ε : Type) where
  agentId : String
  channelId : ℕ
  unread : List ε
  due : List ε
  told : List (LiveDelivery ε)

namespace LiveHub

def new : LiveHub := { channels := ∅, lagged := 0, nextChannelId := 0, closed := false }

/-- `entry(..).or_insert_with(..)`: the channel of an agent, and the hub that has it. -/
def entry (hub : LiveHub) (agentId : String) : AgentChannel × LiveHub :=
  match hub.channels[agentId]? with
  | some channel => (channel, hub)
  | none =>
    let channel : AgentChannel := { subscribers := 0, id := hub.nextChannelId }
    (channel, { hub with channels := hub.channels.insert agentId channel, nextChannelId := hub.nextChannelId + 1 })

/-- `subscribe`; `none` is `SubscriberLimit`. -/
def subscribe (hub : LiveHub) (agentId : String) : Option (LiveSubscription ε) × LiveHub :=
  let channel := (hub.entry agentId).1
  let hub := (hub.entry agentId).2
  if maxEventSubscribersPerAgent ≤ channel.subscribers then (none, hub)
  else
    (some { agentId, channelId := channel.id, unread := [], due := [], told := [] },
      { hub with channels := hub.channels.insert agentId { channel with subscribers := channel.subscribers + 1 } })

/-- The agents an event is for. -/
def targets (agentId : String) (parentAgentId : Option String) : List String :=
  agentId :: (parentAgentId.filter fun parent => parent ≠ agentId).toList

/-- The sender of the stream's channel is still there. -/
def feeds (hub : LiveHub) (stream : LiveSubscription ε) : Bool :=
  hub.channels[stream.agentId]?.any fun channel => channel.id == stream.channelId

/-- `drop` of a `SubscriberGuard`. -/
def release (hub : LiveHub) (stream : LiveSubscription ε) : LiveHub :=
  match hub.channels[stream.agentId]?.filter fun channel => channel.id == stream.channelId with
  | none => hub
  | some channel =>
    if channel.subscribers - 1 = 0 then { hub with channels := hub.channels.erase stream.agentId }
    else
      { hub with
        channels := hub.channels.insert stream.agentId { channel with subscribers := channel.subscribers - 1 } }

end LiveHub

/-- `Receiver::recv`; `none` waits, or finds the channel closed. -/
def LiveSubscription.recv (slots : ℕ) (stream : LiveSubscription ε) : Option (LiveDelivery ε × List ε) :=
  if slots < stream.unread.length then
    some (.lagged (stream.unread.length - slots), stream.unread.drop (stream.unread.length - slots))
  else
    match stream.unread with
    | [] => none
    | e :: rest => some (.event e, rest)

/-- How many events a delivery says were dropped. -/
def LiveDelivery.missed : LiveDelivery ε → ℕ
  | .event _ => 0
  | .lagged missed => missed

/-- The hub with the streams that are open and those that are not any more. -/
structure World (ε : Type) where
  hub : LiveHub
  opened : List (LiveSubscription ε)
  ended : List (LiveSubscription ε)

namespace World

def new : World ε := { hub := .new, opened := [], ended := [] }

def subscribe (w : World ε) (agentId : String) : World ε :=
  match w.hub.subscribe agentId with
  | (none, hub) => { w with hub }
  | (some stream, hub) => { w with hub, opened := w.opened ++ [stream] }

/-- A stream after an event was published. -/
def sent (hub : LiveHub) (agents : List String) (e : ε) (stream : LiveSubscription ε) : LiveSubscription ε :=
  if stream.agentId ∈ agents ∧ hub.feeds stream = true then
    { stream with unread := stream.unread ++ [e], due := stream.due ++ [e] }
  else stream

def publish (w : World ε) (agentId : String) (parentAgentId : Option String) (e : ε) : World ε :=
  { w with opened := w.opened.map (sent w.hub (LiveHub.targets agentId parentAgentId) e) }

/-- `next` of the stream at `i`: nothing is received once the hub is closed. -/
def next (slots : ℕ) (w : World ε) (i : ℕ) : World ε :=
  match w.opened.splitAt i with
  | (_, []) => w
  | (front, stream :: rest) =>
    match if w.hub.closed then none else stream.recv slots with
    | none => w
    | some (delivery, unread) =>
      { w with
        hub := { w.hub with lagged := w.hub.lagged + delivery.missed }
        opened := front ++ { stream with unread, told := stream.told ++ [delivery] } :: rest }

/-- The stream at `i` is dropped. -/
def drop (w : World ε) (i : ℕ) : World ε :=
  match w.opened.splitAt i with
  | (_, []) => w
  | (front, stream :: rest) =>
    { hub := w.hub.release stream, opened := front ++ rest, ended := w.ended ++ [stream] }

end World

/-- What may happen to a hub. -/
inductive Op (ε : Type)
  | subscribe (agentId : String)
  | publish (agentId : String) (parentAgentId : Option String) (e : ε)
  | next (i : ℕ)
  | drop (i : ℕ)
  | closeAgent (agentId : String)
  | close

def World.step (slots : ℕ) (w : World ε) : Op ε → World ε
  | .subscribe agentId => w.subscribe agentId
  | .publish agentId parentAgentId e => w.publish agentId parentAgentId e
  | .next i => w.next slots i
  | .drop i => w.drop i
  | .closeAgent agentId => { w with hub := { w.hub with channels := w.hub.channels.erase agentId } }
  | .close => { w with hub := { w.hub with closed := true } }

/-! ## What a reader is told -/

/-- The deliveries are the events that were `seen`, one by one, or a number for some that were missed. -/
inductive Reads : List (LiveDelivery ε) → List ε → Prop
  | nothing : Reads [] []
  | event {told : List (LiveDelivery ε)} {seen : List ε} (h : Reads told seen) (e : ε) :
      Reads (told ++ [.event e]) (seen ++ [e])
  | lagged {told : List (LiveDelivery ε)} {seen : List ε} (h : Reads told seen) (missed : List ε) (hne : missed ≠ []) :
      Reads (told ++ [.lagged missed.length]) (seen ++ missed)

/-- What a stream was sent is what its reader was told of, and then what is still unread. -/
def Accounted (stream : LiveSubscription ε) : Prop := ∃ seen, stream.due = seen ++ stream.unread ∧ Reads stream.told seen

/-- The events that a reader was told it missed. -/
def lag (stream : LiveSubscription ε) : ℕ := (stream.told.map LiveDelivery.missed).sum

/-- The channel that a stream was opened on. -/
def key (stream : LiveSubscription ε) : String × ℕ := (stream.agentId, stream.channelId)

/-- What holds of a hub and its streams. -/
structure Exact (w : World ε) : Prop where
  counted : ∀ agentId channel, w.hub.channels[agentId]? = some channel →
    channel.subscribers = (w.opened.map key).count (agentId, channel.id) ∧ 0 < channel.subscribers ∧
      channel.subscribers ≤ maxEventSubscribersPerAgent ∧ channel.id < w.hub.nextChannelId
  numbered : ∀ stream ∈ w.opened, stream.channelId < w.hub.nextChannelId
  accounted : ∀ stream ∈ w.opened ++ w.ended, Accounted stream
  lagged : w.hub.lagged = ((w.opened ++ w.ended).map lag).sum

theorem exact_new : Exact (World.new (ε := ε)) where
  counted agentId channel h := by
    have hnone : (∅ : Table String AgentChannel)[agentId]? = none := Std.ExtTreeMap.getElem?_empty
    exact absurd (hnone.symm.trans h) (by rintro ⟨⟩)
  numbered stream h := absurd h List.not_mem_nil
  accounted stream h := absurd h List.not_mem_nil
  lagged := rfl

theorem recv_accounted {slots : ℕ} {stream : LiveSubscription ε} (h : Accounted stream) {delivery : LiveDelivery ε}
    {unread : List ε} (hrecv : stream.recv slots = some (delivery, unread)) :
    Accounted { stream with unread, told := stream.told ++ [delivery] } := by
  obtain ⟨seen, hdue, hreads⟩ := h
  unfold LiveSubscription.recv at hrecv
  by_cases hlag : slots < stream.unread.length
  · rw [if_pos hlag, Option.some_inj, Prod.mk.injEq] at hrecv
    obtain ⟨rfl, rfl⟩ := hrecv
    have hlength : (stream.unread.take (stream.unread.length - slots)).length = stream.unread.length - slots := by
      rw [List.length_take]
      omega
    have hne : stream.unread.take (stream.unread.length - slots) ≠ [] := by
      intro hnil
      rw [hnil, List.length_nil] at hlength
      omega
    have hnext := hreads.lagged _ hne
    rw [hlength] at hnext
    refine ⟨_, ?_, hnext⟩
    show stream.due = seen ++ stream.unread.take _ ++ stream.unread.drop _
    rw [List.append_assoc, List.take_append_drop, hdue]
  · rw [if_neg hlag] at hrecv
    rcases hunread : stream.unread with _ | ⟨e, rest⟩
    · rw [hunread] at hrecv
      cases hrecv
    · rw [hunread] at hrecv hdue
      obtain ⟨rfl, rfl⟩ := Prod.mk.inj (Option.some.inj hrecv)
      refine ⟨seen ++ [e], ?_, hreads.event e⟩
      show stream.due = seen ++ [e] ++ rest
      rw [hdue, List.append_assoc, List.singleton_append]

theorem sent_accounted {hub : LiveHub} {agents : List String} {e : ε} {stream : LiveSubscription ε} (h : Accounted stream) :
    Accounted (World.sent hub agents e stream) := by
  obtain ⟨seen, hdue, hreads⟩ := h
  unfold World.sent
  by_cases hfeeds : stream.agentId ∈ agents ∧ hub.feeds stream = true
  · rw [if_pos hfeeds]
    refine ⟨seen, ?_, hreads⟩
    show stream.due ++ [e] = seen ++ (stream.unread ++ [e])
    rw [hdue, List.append_assoc]
  · rw [if_neg hfeeds]
    exact ⟨seen, hdue, hreads⟩

theorem sent_same (hub : LiveHub) (agents : List String) (e : ε) (stream : LiveSubscription ε) :
    key (World.sent hub agents e stream) = key stream ∧ lag (World.sent hub agents e stream) = lag stream := by
  unfold World.sent
  by_cases hfeeds : stream.agentId ∈ agents ∧ hub.feeds stream = true
  · rw [if_pos hfeeds]
    exact ⟨rfl, rfl⟩
  · rw [if_neg hfeeds]
    exact ⟨rfl, rfl⟩

/-! ## One step -/

section

variable {w : World ε}

/-- **A stream is opened** on the channel that its agent has now. -/
theorem Exact.open (h : Exact w) {agentId : String} (channel : AgentChannel)
    {channels : Table String AgentChannel} {next : ℕ}
    (hcount : channel.subscribers = (w.opened.map key).count (agentId, channel.id))
    (hroom : channel.subscribers < maxEventSubscribersPerAgent) (hid : channel.id < next)
    (hnext : w.hub.nextChannelId ≤ next)
    (hlook : ∀ a, channels[a]? =
      if agentId = a then some { channel with subscribers := channel.subscribers + 1 } else w.hub.channels[a]?) :
    Exact { w with
      hub := { w.hub with channels, nextChannelId := next }
      opened := w.opened ++ [{ agentId, channelId := channel.id, unread := [], due := [], told := [] }] } where
  counted agent found hfound := by
    have hlooked := (hlook agent).symm.trans hfound
    rw [List.map_append, List.count_append]
    by_cases hagent : agentId = agent
    · rw [if_pos hagent, Option.some_inj] at hlooked
      subst hagent
      subst hlooked
      refine ⟨?_, Nat.succ_pos _, hroom, hid⟩
      show channel.subscribers + 1 = _ + List.count (agentId, channel.id) [(agentId, channel.id)]
      rw [List.count_singleton_self, hcount]
    · rw [if_neg hagent] at hlooked
      obtain ⟨hcounted, hpos, hmax, hold⟩ := h.counted agent found hlooked
      refine ⟨?_, hpos, hmax, hold.trans_le hnext⟩
      have hother : List.count (agent, found.id) [(agentId, channel.id)] = 0 :=
        List.count_eq_zero.mpr fun hmem => hagent (Prod.mk.inj (List.mem_singleton.mp hmem)).1.symm
      exact hcounted.trans (by rw [show List.map key [_] = [(agentId, channel.id)] from rfl, hother, Nat.add_zero])
  numbered stream hmem := by
    rcases List.mem_append.mp hmem with hold | hnew
    · exact (h.numbered stream hold).trans_le hnext
    · rw [List.mem_singleton.mp hnew]
      exact hid
  accounted stream hmem := by
    rcases List.mem_append.mp hmem with hopened | hended
    · rcases List.mem_append.mp hopened with hold | hnew
      · exact h.accounted stream (List.mem_append_left _ hold)
      · rw [List.mem_singleton.mp hnew]
        exact ⟨[], rfl, .nothing⟩
    · exact h.accounted stream (List.mem_append_right _ hended)
  lagged := by
    show w.hub.lagged = _
    rw [h.lagged]
    simp [lag]

theorem Exact.subscribe (h : Exact w) (agentId : String) : Exact (w.subscribe agentId) := by
  unfold World.subscribe LiveHub.subscribe LiveHub.entry
  rcases hfound : w.hub.channels[agentId]? with _ | channel
  · dsimp only
    rw [if_neg (by decide)]
    refine h.open ⟨0, w.hub.nextChannelId⟩ ?_ (show 0 < maxEventSubscribersPerAgent by decide) (Nat.lt_succ_self _)
      (Nat.le_succ _) fun a => ?_
    · refine (List.count_eq_zero.mpr fun hmem => ?_).symm
      obtain ⟨stream, hstream, hkey⟩ := List.mem_map.mp hmem
      have hlt := h.numbered stream hstream
      have hid : stream.channelId = w.hub.nextChannelId := (Prod.mk.inj hkey).2
      omega
    · rw [Table.getElem?_insert_eq, Table.getElem?_insert_eq]
      split_ifs
      · rfl
      · rfl
  · obtain ⟨hcounted, _, hmax, hid⟩ := h.counted agentId channel hfound
    dsimp only
    by_cases hfull : maxEventSubscribersPerAgent ≤ channel.subscribers
    · rw [if_pos hfull]
      exact h
    · rw [if_neg hfull]
      exact h.open channel hcounted (Nat.lt_of_not_le hfull) hid le_rfl fun a => Table.getElem?_insert_eq _ _ _

theorem Exact.publish (h : Exact w) (agentId : String) (parentAgentId : Option String) (e : ε) :
    Exact (w.publish agentId parentAgentId e) := by
  have hkeys : (w.opened.map (World.sent w.hub (LiveHub.targets agentId parentAgentId) e)).map key = w.opened.map key := by
    rw [List.map_map]
    exact List.map_congr_left fun stream _ => (sent_same _ _ e stream).1
  have hlags : (w.opened.map (World.sent w.hub (LiveHub.targets agentId parentAgentId) e)).map lag = w.opened.map lag := by
    rw [List.map_map]
    exact List.map_congr_left fun stream _ => (sent_same _ _ e stream).2
  constructor
  · intro agent channel hchannel
    show _ = ((w.opened.map _).map key).count _ ∧ _
    rw [hkeys]
    exact h.counted agent channel hchannel
  · intro stream hmem
    obtain ⟨before, hbefore, rfl⟩ := List.mem_map.mp hmem
    have hid : (World.sent w.hub (LiveHub.targets agentId parentAgentId) e before).channelId = before.channelId :=
      congrArg Prod.snd (sent_same _ _ e before).1
    rw [hid]
    exact h.numbered before hbefore
  · intro stream hmem
    rcases List.mem_append.mp hmem with hopened | hended
    · obtain ⟨before, hbefore, rfl⟩ := List.mem_map.mp hopened
      exact sent_accounted (h.accounted before (List.mem_append_left _ hbefore))
    · exact h.accounted stream (List.mem_append_right _ hended)
  · show w.hub.lagged = ((w.opened.map _ ++ w.ended).map lag).sum
    rw [List.map_append, hlags, ← List.map_append]
    exact h.lagged

theorem opened_eq {i : ℕ} {front rest : List (LiveSubscription ε)} {stream : LiveSubscription ε}
    (h : w.opened.splitAt i = (front, stream :: rest)) : w.opened = front ++ stream :: rest := by
  rw [List.splitAt_eq, Prod.mk.injEq] at h
  rw [← h.1, ← h.2, List.take_append_drop]

theorem Exact.next (h : Exact w) (slots i : ℕ) : Exact (w.next slots i) := by
  unfold World.next
  rcases hsplit : w.opened.splitAt i with ⟨front, _ | ⟨stream, rest⟩⟩
  · exact h
  · dsimp only
    have hopened := opened_eq hsplit
    rcases hrecv : (if w.hub.closed then none else stream.recv slots) with _ | ⟨delivery, unread⟩
    · exact h
    · dsimp only
      have hreceived : stream.recv slots = some (delivery, unread) := by
        split_ifs at hrecv
        exact hrecv
      have hin : ∀ s ∈ front ++ stream :: rest, s ∈ w.opened ++ w.ended := fun s hs =>
        List.mem_append_left _ (hopened ▸ hs)
      constructor
      · intro agent channel hchannel
        obtain ⟨hcounted, hbounds⟩ := h.counted agent channel hchannel
        refine ⟨hcounted.trans ?_, hbounds⟩
        rw [hopened, List.map_append, List.map_append]
        rfl
      · intro s hmem
        rcases List.mem_append.mp hmem with hfront | hrest
        · exact h.numbered s (hopened ▸ List.mem_append_left _ hfront)
        · rcases List.mem_cons.mp hrest with rfl | hrest
          · exact h.numbered stream (hopened ▸ List.mem_append_right _ List.mem_cons_self)
          · exact h.numbered s (hopened ▸ List.mem_append_right _ (List.mem_cons_of_mem _ hrest))
      · intro s hmem
        rcases List.mem_append.mp hmem with hs | hended
        · rcases List.mem_append.mp hs with hfront | hrest
          · exact h.accounted s (hin s (List.mem_append_left _ hfront))
          · rcases List.mem_cons.mp hrest with rfl | hrest
            · exact recv_accounted (h.accounted stream (hin stream (List.mem_append_right _ List.mem_cons_self))) hreceived
            · exact h.accounted s (hin s (List.mem_append_right _ (List.mem_cons_of_mem _ hrest)))
        · exact h.accounted s (List.mem_append_right _ hended)
      · show w.hub.lagged + delivery.missed = _
        have hlag : lag { stream with unread, told := stream.told ++ [delivery] } = lag stream + delivery.missed := by
          unfold lag
          rw [List.map_append, List.sum_append]
          rfl
        rw [h.lagged, hopened]
        simp only [List.map_append, List.map_cons, List.sum_append, List.sum_cons, hlag]
        omega

/-- The count of the stream that is dropped goes down, and the last one takes the channel with it. -/
theorem release_counted {stream : LiveSubscription ε} (keys : List (String × ℕ))
    (h : ∀ agentId channel, w.hub.channels[agentId]? = some channel →
      channel.subscribers = (key stream :: keys).count (agentId, channel.id) ∧ 0 < channel.subscribers ∧
        channel.subscribers ≤ maxEventSubscribersPerAgent ∧ channel.id < w.hub.nextChannelId)
    {agentId : String} {channel : AgentChannel} (hafter : (w.hub.release stream).channels[agentId]? = some channel) :
    channel.subscribers = keys.count (agentId, channel.id) ∧ 0 < channel.subscribers ∧
      channel.subscribers ≤ maxEventSubscribersPerAgent ∧ channel.id < w.hub.nextChannelId := by
  -- another channel has the count it had
  have hother : ∀ c, w.hub.channels[agentId]? = some c → (agentId, c.id) ≠ key stream →
      c.subscribers = keys.count (agentId, c.id) ∧ 0 < c.subscribers ∧ c.subscribers ≤ maxEventSubscribersPerAgent ∧
        c.id < w.hub.nextChannelId := by
    intro c hc hne
    obtain ⟨hcounted, hbounds⟩ := h agentId c hc
    rw [List.count_cons_of_ne hne.symm] at hcounted
    exact ⟨hcounted, hbounds⟩
  unfold LiveHub.release at hafter
  rcases hfound : w.hub.channels[stream.agentId]?.filter fun c => c.id == stream.channelId with _ | mine
  · rw [hfound] at hafter
    refine hother channel hafter fun heq => ?_
    obtain ⟨hagent, hid⟩ := Prod.mk.inj heq
    rw [hagent] at hafter
    rw [hafter, Option.filter_some, if_pos (beq_iff_eq.mpr hid)] at hfound
    cases hfound
  · obtain ⟨hmine, hid⟩ := Option.filter_eq_some_iff.mp hfound
    have hmineId : mine.id = stream.channelId := beq_iff_eq.mp hid
    obtain ⟨hcounted, hpos, hmax, hlt⟩ := h stream.agentId mine hmine
    have hkey : (stream.agentId, mine.id) = key stream := by rw [hmineId]; rfl
    rw [hkey, List.count_cons_self] at hcounted
    rw [hfound] at hafter
    dsimp only at hafter
    by_cases hagent : stream.agentId = agentId
    · subst hagent
      by_cases hlast : mine.subscribers - 1 = 0
      · rw [if_pos hlast, Table.getElem?_erase_eq, if_pos rfl] at hafter
        cases hafter
      · rw [if_neg hlast, Table.getElem?_insert_eq, if_pos rfl, Option.some_inj] at hafter
        subst hafter
        refine ⟨?_, Nat.pos_of_ne_zero hlast, (Nat.sub_le _ _).trans hmax, hlt⟩
        show mine.subscribers - 1 = keys.count (stream.agentId, mine.id)
        rw [hkey]
        omega
    · refine hother channel ?_ fun heq => hagent (Prod.mk.inj heq).1.symm
      by_cases hlast : mine.subscribers - 1 = 0
      · rwa [if_pos hlast, Table.getElem?_erase_eq, if_neg hagent] at hafter
      · rwa [if_neg hlast, Table.getElem?_insert_eq, if_neg hagent] at hafter

theorem release_same (hub : LiveHub) (stream : LiveSubscription ε) :
    (hub.release stream).lagged = hub.lagged ∧ (hub.release stream).nextChannelId = hub.nextChannelId := by
  unfold LiveHub.release
  split
  · exact ⟨rfl, rfl⟩
  · split_ifs
    · exact ⟨rfl, rfl⟩
    · exact ⟨rfl, rfl⟩

theorem Exact.drop (h : Exact w) (i : ℕ) : Exact (w.drop i) := by
  unfold World.drop
  rcases hsplit : w.opened.splitAt i with ⟨front, _ | ⟨stream, rest⟩⟩
  · exact h
  · dsimp only
    have hopened := opened_eq hsplit
    have hperm : w.opened.Perm (stream :: (front ++ rest)) := hopened ▸ List.perm_middle
    obtain ⟨hlagged, hnext⟩ := release_same w.hub stream
    constructor
    · intro agent channel hchannel
      show channel.subscribers = _ ∧ _ ∧ _ ∧ channel.id < (w.hub.release stream).nextChannelId
      rw [hnext]
      refine release_counted ((front ++ rest).map key) (fun a c hc => ?_) hchannel
      have hcounted := h.counted a c hc
      rwa [(hperm.map key).count_eq] at hcounted
    · intro s hs
      show s.channelId < (w.hub.release stream).nextChannelId
      rw [hnext]
      exact h.numbered s (hperm.mem_iff.mpr (List.mem_cons_of_mem _ hs))
    · intro s hmem
      refine h.accounted s (List.mem_append.mpr ?_)
      rcases List.mem_append.mp hmem with hs | hended
      · exact .inl (hperm.mem_iff.mpr (List.mem_cons_of_mem _ hs))
      · rcases List.mem_append.mp hended with hended | hlast
        · exact .inr hended
        · rw [List.mem_singleton.mp hlast]
          exact .inl (hperm.mem_iff.mpr List.mem_cons_self)
    · show (w.hub.release stream).lagged = ((front ++ rest ++ (w.ended ++ [stream])).map lag).sum
      rw [hlagged, h.lagged, List.map_append, List.sum_append, (hperm.map lag).sum_eq]
      simp only [List.map_append, List.map_cons, List.map_nil, List.sum_append, List.sum_cons, List.sum_nil]
      omega

/-- **One step**: whatever happens, the hub's counts stay right and every stream accounts for what it was sent. -/
theorem step_exact (slots : ℕ) (h : Exact w) (op : Op ε) : Exact (w.step slots op) := by
  cases op with
  | subscribe agentId => exact h.subscribe agentId
  | publish agentId parentAgentId e => exact h.publish agentId parentAgentId e
  | next i => exact h.next slots i
  | drop i => exact h.drop i
  | closeAgent agentId =>
    refine ⟨fun agent channel hchannel => ?_, h.numbered, h.accounted, h.lagged⟩
    have hfound : (w.hub.channels.erase agentId)[agent]? = some channel := hchannel
    rw [Table.getElem?_erase_eq] at hfound
    split_ifs at hfound
    exact h.counted agent channel hfound
  | close => exact ⟨h.counted, h.numbered, h.accounted, h.lagged⟩

end

end AnimaCore.Live
