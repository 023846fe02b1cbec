import AnimaCore.Runs.Steers

/-!
# AnimaCore.Runs.OnePlace — every accepted steer is in one place

The operations of `Journal` over whole runs.

* `Kept agents accepted records`: the messages of an agent have keys of their own, and each accepted steer is held by a
  record that the retention leaves alone.  `Kept.moved` carries it over every `Moved`.
* `Allowed`: what the callers of the operations ensure: new identifiers, keys that are new to the agent, and steers that
  did join the run they are said to have joined.
-/

namespace AnimaCore.Runs

open Lib

variable {records records' : List RunRecord} {r r' : RunRecord} {a : String} {now : ℕ} {agents : List String}
  {accepted : List (String × RunSteer)}

/-! ## Handing on -/

theorem foldl_addLeftover (unread : List SteerContent) (left : List RunSteer) :
    left.foldl addLeftover unread = (left.map steerContent).foldl (pushNew SteerContent.clientRequestId) unread := by
  rw [List.foldl_map]
  congr 1
  funext l s
  unfold addLeftover pushNew
  simp only [List.any_eq_true, beq_iff_eq, steerContent]

theorem leftovers_perm {left : List RunSteer} {unread : List SteerContent} {f : SteerContent → Message}
    (hn : (left.map (·.idempotencyKey)).Nodup) (hunread : (unread.map SteerContent.clientRequestId).Nodup)
    (hof : ∀ c ∈ unread ++ left.map steerContent, ∃ s ∈ left,
      c.clientRequestId = some s.idempotencyKey ∧ f c = s.message) :
    ((sortContents (left.foldl addLeftover unread)).map f).Perm (left.map RunSteer.message) := by
  refine ((List.mergeSort_perm _ _).map f).trans ?_
  rw [foldl_addLeftover]
  have hkeys := nodup_foldl_pushNew (left.map steerContent) hunread
  have hall : ∀ c ∈ (left.map steerContent).foldl (pushNew SteerContent.clientRequestId) unread,
      ∃ s ∈ left, c.clientRequestId = some s.idempotencyKey ∧ f c = s.message :=
    fun c hc => hof c (List.mem_append.mpr (mem_of_mem_foldl_pushNew hc))
  have hmessages : (left.map RunSteer.message).Nodup := by
    have hkey : (left.map RunSteer.message).map Message.key = left.map (·.idempotencyKey) := by
      rw [List.map_map]
      rfl
    exact (hkey ▸ hn : ((left.map RunSteer.message).map Message.key).Nodup).of_map
  have hnodup : (((left.map steerContent).foldl (pushNew SteerContent.clientRequestId) unread).map f).Nodup := by
    refine List.Nodup.map_on ?_ hkeys.of_map
    intro c hc c' hc' heq
    obtain ⟨s, _, hid, hmsg⟩ := hall c hc
    obtain ⟨s', _, hid', hmsg'⟩ := hall c' hc'
    have hkey : s.idempotencyKey = s'.idempotencyKey := congrArg Message.key (hmsg.symm.trans (heq.trans hmsg'))
    exact List.inj_on_of_nodup_map hkeys hc hc' (by rw [hid, hid', hkey])
  rw [List.perm_ext_iff_of_nodup hnodup hmessages]
  intro m
  constructor
  · intro hm
    obtain ⟨c, hc, rfl⟩ := List.mem_map.mp hm
    obtain ⟨s, hs, _, hmsg⟩ := hall c hc
    exact hmsg ▸ List.mem_map_of_mem hs
  · intro hm
    obtain ⟨s, hs, rfl⟩ := List.mem_map.mp hm
    obtain ⟨c, hc, hid⟩ := key_mem_foldl_pushNew SteerContent.clientRequestId (l := unread)
      (List.mem_map_of_mem (f := steerContent) hs)
    obtain ⟨s', hs', hid', hmsg⟩ := hall c hc
    have hkey : s'.idempotencyKey = s.idempotencyKey := Option.some.inj (hid'.symm.trans hid)
    have hsame : s' = s := List.inj_on_of_nodup_map hn hs' hs hkey
    exact List.mem_map.mpr ⟨c, hc, by rw [hmsg, hsame]⟩

section HandOn

variable {mk : ℕ → SteerContent → RunRecord} {stopped : Bool} {i openSlots : ℕ} {contents : List SteerContent}

theorem forall_handOnLoop {P : RunRecord → Prop} (hmk : ∀ i, ∀ c ∈ contents, P (mk i c))
    (hfinish : ∀ i, ∀ c ∈ contents, ∀ e, P ((mk i c).finish .interrupted (some e) now)) :
    ∀ x ∈ handOnLoop mk stopped now i openSlots contents, P x := by
  induction contents generalizing i openSlots with
  | nil => simp [handOnLoop]
  | cons c contents ih =>
    have hrest : ∀ i openSlots, ∀ x ∈ handOnLoop mk stopped now i openSlots contents, P x := fun i openSlots =>
      ih (fun i c hc => hmk i c (List.mem_cons_of_mem _ hc)) fun i c hc => hfinish i c (List.mem_cons_of_mem _ hc)
    unfold handOnLoop
    split_ifs
    · exact List.forall_mem_cons.mpr ⟨hfinish i c List.mem_cons_self _, hrest _ _⟩
    · exact List.forall_mem_cons.mpr ⟨hfinish i c List.mem_cons_self _, hrest _ _⟩
    · exact List.forall_mem_cons.mpr ⟨hmk i c List.mem_cons_self, hrest _ _⟩

theorem map_handOnLoop {β : Type} {g : RunRecord → β} {h : ℕ → SteerContent → β} (hmk : ∀ i c, g (mk i c) = h i c)
    (hfinish : ∀ x e, g (x.finish .interrupted e now) = g x) :
    (handOnLoop mk stopped now i openSlots contents).map g = contents.mapIdx fun j c => h (i + j) c := by
  induction contents generalizing i openSlots with
  | nil => rfl
  | cons c contents ih =>
    have hshift : (fun j c => h (i + (j + 1)) c) = fun j c => h (i + 1 + j) c := by
      funext j c
      congr 1
      omega
    unfold handOnLoop
    rw [List.mapIdx_cons, hshift]
    split_ifs
    · rw [List.map_cons, hfinish, hmk, ih]
      rfl
    · rw [List.map_cons, hfinish, hmk, ih]
      rfl
    · rw [List.map_cons, hmk, ih]
      rfl

end HandOn

theorem bindings_eq {steers : List RunSteer} {s : RunSteer} (hn : (steers.map (·.idempotencyKey)).Nodup) (hs : s ∈ steers) :
    bindings steers s.idempotencyKey = some s.input := by
  unfold bindings
  cases hfind : steers.reverse.find? fun t => t.idempotencyKey == s.idempotencyKey with
  | none =>
    rw [List.find?_eq_none] at hfind
    have hne := hfind s (List.mem_reverse.mpr hs)
    simp at hne
  | some t =>
    have hkey : t.idempotencyKey = s.idempotencyKey := by simpa using List.find?_some hfind
    have hmem : t ∈ steers := List.mem_reverse.mp (List.mem_of_find?_eq_some hfind)
    rw [List.inj_on_of_nodup_map hn hmem hs hkey, Option.map_some]

/-- What the inbox of a run gave back: steers of its record that its transcript did not take in. -/
structure Unread (r : RunRecord) (left : SteerLeftovers) : Prop where
  distinct : (left.unread.map SteerContent.clientRequestId).Nodup
  joined : ∀ c ∈ left.unread, ∃ s ∈ r.pendingSteers, c.clientRequestId = some s.idempotencyKey ∧
    c.acceptedAtMs = some s.acceptedAtMs ∧ s.idempotencyKey ∉ left.taken

def leftOf (r : RunRecord) (left : SteerLeftovers) : List RunSteer :=
  r.pendingSteers.filter fun s => !left.taken.contains s.idempotencyKey

def handedRuns (r : RunRecord) (left : SteerLeftovers) (openSlots now : ℕ) (fresh : ℕ → String) : List RunRecord :=
  handOnLoop (fun i => handedRun (fresh i) left r.pendingSteers now) left.stopped now 0 openSlots
    (sortContents ((leftOf r left).foldl addLeftover left.unread))

section HandOn

variable {left : SteerLeftovers} {openSlots : ℕ} {fresh : ℕ → String}

theorem mem_handedRuns {x : RunRecord} (hx : x ∈ handedRuns r left openSlots now fresh) :
    x.agentId = left.agentId ∧ Stays x := by
  refine forall_handOnLoop (P := fun x => x.agentId = left.agentId ∧ Stays x) ?_ ?_ x hx
  · exact fun i c _ => ⟨rfl, rfl, nofun⟩
  · exact fun i c _ e => ⟨rfl, stays_finish rfl⟩

variable (left openSlots now fresh) in
theorem ids_handedRuns :
    ∃ n, (handedRuns r left openSlots now fresh).map (·.id) = (List.range n).map fresh := by
  refine ⟨(sortContents ((leftOf r left).foldl addLeftover left.unread)).length, ?_⟩
  unfold handedRuns
  rw [map_handOnLoop (h := fun i _ => fresh i) (fun _ _ => rfl) fun _ _ => rfl]
  refine List.ext_getElem (by simp) fun i hi hi' => ?_
  simp

/-- The message of the run that a content with a key becomes. -/
def contentMessage (bound : List RunSteer) (now : ℕ) (c : SteerContent) : Message :=
  { key := c.clientRequestId.getD "", input := some ((c.clientRequestId.bind (bindings bound)).getD c.input)
    atMs := c.acceptedAtMs.getD now }

theorem messages_handedRun {bound : List RunSteer} {c : SteerContent} {id : String} (hid : c.clientRequestId.isSome = true) :
    (handedRun id left bound now c).messages = [contentMessage bound now c] := by
  obtain ⟨key, hkey⟩ := Option.isSome_iff_exists.mp hid
  unfold handedRun contentMessage
  rw [hkey]
  rfl

theorem messages_handedRuns
    (hids : ∀ c ∈ sortContents ((leftOf r left).foldl addLeftover left.unread), c.clientRequestId.isSome = true) :
    (handedRuns r left openSlots now fresh).flatMap RunRecord.messages =
      (sortContents ((leftOf r left).foldl addLeftover left.unread)).map (contentMessage r.pendingSteers now) := by
  unfold handedRuns
  have hmk : ∀ i c, (handedRun (fresh i) left r.pendingSteers now c).messages =
      (handedRun "" left r.pendingSteers now c).messages := fun _ _ => rfl
  rw [List.flatMap_def, map_handOnLoop hmk fun _ _ => rfl]
  have hsame : (sortContents ((leftOf r left).foldl addLeftover left.unread)).mapIdx
        (fun _ c => (handedRun "" left r.pendingSteers now c).messages) =
      (sortContents ((leftOf r left).foldl addLeftover left.unread)).map
        fun c => [contentMessage r.pendingSteers now c] := by
    refine List.ext_getElem (by simp) fun i hi hi' => ?_
    rw [List.getElem_mapIdx, List.getElem_map]
    exact messages_handedRun (hids _ (List.getElem_mem _))
  rw [hsame, ← List.flatMap_def, List.map_eq_flatMap]

theorem messages_keepTaken :
    (r.keepTaken left.taken).messages =
      (r.pendingSteers.filter fun s => left.taken.contains s.idempotencyKey).map RunSteer.message ++
        r.steeredKeys.map SteeredKey.message ++ r.own.toList := rfl

variable (openSlots now fresh) in
theorem movedOne_handedRuns (hn : (r.messages.map Message.key).Nodup) (hagent : r.agentId = left.agentId)
    (hunread : Unread r left) : MovedOne r (r.keepTaken left.taken :: handedRuns r left openSlots now fresh) := by
  have hpending : (r.pendingSteers.map (·.idempotencyKey)).Nodup := by
    have h := (List.nodup_append.mp (List.map_append ▸ keys_of_messages hn)).1
    rw [List.map_map] at h
    exact h
  have hleft : ((leftOf r left).map (·.idempotencyKey)).Nodup := hpending.sublist (List.filter_sublist.map _)
  -- each content is of a steer that was not taken in, and the run gets the input it waited with
  have hof : ∀ c ∈ left.unread ++ (leftOf r left).map steerContent, ∃ s ∈ leftOf r left,
      c.clientRequestId = some s.idempotencyKey ∧ contentMessage r.pendingSteers now c = s.message := by
    have hmessage : ∀ c : SteerContent, ∀ s ∈ leftOf r left, c.clientRequestId = some s.idempotencyKey →
        c.acceptedAtMs = some s.acceptedAtMs → contentMessage r.pendingSteers now c = s.message := by
      intro c s hs hid hat
      unfold contentMessage
      rw [hid, hat, Option.bind_some, bindings_eq hpending (List.mem_filter.mp hs).1]
      rfl
    intro c hc
    rcases List.mem_append.mp hc with hc | hc
    · obtain ⟨s, hs, hid, hat, hnot⟩ := hunread.joined c hc
      have hsl : s ∈ leftOf r left := List.mem_filter.mpr ⟨hs, by simpa using hnot⟩
      exact ⟨s, hsl, hid, hmessage c s hsl hid hat⟩
    · obtain ⟨s, hs, rfl⟩ := List.mem_map.mp hc
      exact ⟨s, hs, rfl, hmessage _ s hs rfl rfl⟩
  have hruns : ((handedRuns r left openSlots now fresh).flatMap RunRecord.messages).Perm
      ((leftOf r left).map RunSteer.message) := by
    have hids : ∀ c ∈ sortContents ((leftOf r left).foldl addLeftover left.unread), c.clientRequestId.isSome = true := by
      intro c hc
      have hmem := (List.mergeSort_perm _ _).mem_iff.mp hc
      rw [foldl_addLeftover] at hmem
      obtain ⟨s, _, hid, _⟩ := hof c (List.mem_append.mpr (mem_of_mem_foldl_pushNew hmem))
      rw [hid]
      rfl
    rw [messages_handedRuns hids]
    exact leftovers_perm hleft hunread.distinct hof
  have hall : ((r.keepTaken left.taken :: handedRuns r left openSlots now fresh).flatMap RunRecord.messages).Perm
      r.messages := by
    have hsplit : ((r.pendingSteers.filter fun s => left.taken.contains s.idempotencyKey).map RunSteer.message ++
        (leftOf r left).map RunSteer.message).Perm (r.pendingSteers.map RunSteer.message) := by
      rw [← List.map_append]
      exact (List.filter_append_perm _ _).map _
    rw [List.flatMap_cons, messages_keepTaken]
    unfold RunRecord.messages
    rw [List.append_assoc, List.append_assoc, List.append_assoc]
    refine List.Perm.trans ?_ (hsplit.append_right _)
    rw [List.append_assoc]
    refine List.Perm.append_left _ ?_
    rw [← List.append_assoc]
    exact List.perm_append_comm.trans (hruns.append_right _)
  refine ⟨?_, hall.subperm, ?_⟩
  · intro x hx
    rcases List.mem_cons.mp hx with rfl | hx
    · rfl
    · rw [(mem_handedRuns hx).1, hagent]
  · intro hs m hm
    obtain ⟨x, hx, hxm⟩ := List.mem_flatMap.mp (hall.mem_iff.mpr hm)
    refine ⟨x, hx, ?_, hxm⟩
    rcases List.mem_cons.mp hx with rfl | hx
    · exact hs
    · exact (mem_handedRuns hx).2

end HandOn

/-! ## The invariant -/

/-- The messages of each agent have keys of their own, and the accepted steers are held. -/
structure Kept (agents : List String) (accepted : List (String × RunSteer)) (records : List RunRecord) : Prop where
  ids : (records.map (·.id)).Nodup
  live : ∀ r ∈ records, agents.contains r.agentId = true
  keys : ∀ a, (heldKeys records a).Nodup
  held : ∀ p ∈ accepted, ∃ r ∈ records, r.agentId = p.1 ∧ Stays r ∧ p.2.message ∈ r.messages

theorem nodup_heldKeys_of_subperm (h : (held records' a).Subperm (held records a)) (hn : (heldKeys records a).Nodup) :
    (heldKeys records' a).Nodup := by
  obtain ⟨l, hp, hl⟩ := h
  exact (hp.map Message.key).nodup_iff.mp (hn.sublist (hl.map Message.key))

theorem Kept.moved (k : Kept agents accepted records) (h : Moved records records') (hids : (records'.map (·.id)).Nodup) :
    Kept agents accepted records' where
  ids := hids
  live := by
    intro x hx
    obtain ⟨r, hr, heq⟩ := h.agent x hx
    exact heq ▸ k.live r hr
  keys := fun a => nodup_heldKeys_of_subperm (h.held a) (k.keys a)
  held := by
    intro p hp
    obtain ⟨r, hr, hagent, hs, hm⟩ := k.held p hp
    obtain ⟨x, hx, hagent', hxs, hxm⟩ := h.stays r hr hs _ hm
    exact ⟨x, hx, hagent'.trans hagent, hxs, hxm⟩

theorem Kept.perm (k : Kept agents accepted records) (h : records'.Perm records) : Kept agents accepted records' :=
  k.moved (Moved.of_perm h) ((h.map _).nodup_iff.mpr k.ids)

theorem Kept.messages_nodup (k : Kept agents accepted records) (hr : r ∈ records) : (r.messages.map Message.key).Nodup := by
  have hsub : r.messages.Sublist (Runs.held records r.agentId) :=
    List.sublist_flatten_of_mem (List.mem_map_of_mem (List.mem_filter.mpr ⟨hr, by simp⟩))
  exact (k.keys r.agentId).sublist (hsub.map Message.key)

theorem Kept.snapshot {ledger : RunLedger} (k : Kept agents accepted ledger.records) :
    Kept agents accepted (ledger.snapshotRecords agents) :=
  k.perm (RunLedger.snapshotRecords_perm_of_live k.live)

theorem Kept.cons (k : Kept agents accepted records) (hid : ∀ x ∈ records, x.id ≠ r.id)
    (hlive : agents.contains r.agentId = true) (hkeys : (r.messages.map Message.key).Nodup)
    (hnew : ∀ m ∈ r.messages, m.key ∉ heldKeys records r.agentId) : Kept agents accepted (r :: records) where
  ids := by
    rw [List.map_cons, List.nodup_cons]
    refine ⟨?_, k.ids⟩
    intro hmem
    obtain ⟨x, hx, heq⟩ := List.mem_map.mp hmem
    exact hid x hx heq
  live := List.forall_mem_cons.mpr ⟨hlive, k.live⟩
  keys := by
    intro a
    unfold heldKeys
    rw [held_cons]
    by_cases ha : r.agentId = a
    · subst ha
      rw [if_pos rfl, List.map_append, List.nodup_append]
      refine ⟨hkeys, k.keys _, ?_⟩
      rintro key hkey key' hkey' rfl
      obtain ⟨m, hm, rfl⟩ := List.mem_map.mp hkey
      exact hnew m hm hkey'
    · rw [if_neg ha, List.nil_append]
      exact k.keys a
  held := by
    intro p hp
    obtain ⟨x, hx, h⟩ := k.held p hp
    exact ⟨x, List.mem_cons_of_mem _ hx, h⟩

theorem Kept.join {rest : List RunRecord} {s : RunSteer} (k : Kept agents accepted (r :: rest)) (hhelper : r.asyncHelper = none)
    (hactive : r.status.isTerminal = false) (hnew : s.idempotencyKey ∉ heldKeys (r :: rest) r.agentId) :
    Kept agents ((r.agentId, s) :: accepted)
      ({ r with pendingSteers := r.pendingSteers ++ [s] } :: rest) := by
  have hperm : ({ r with pendingSteers := r.pendingSteers ++ [s] } : RunRecord).messages.Perm (s.message :: r.messages) := by
    unfold RunRecord.messages
    rw [List.map_append, List.map_singleton, List.append_assoc, List.append_assoc, List.append_assoc,
      List.singleton_append]
    exact List.perm_middle
  have hheld : ∀ a, (Runs.held ({ r with pendingSteers := r.pendingSteers ++ [s] } :: rest) a).Perm
      ((if r.agentId = a then [s.message] else []) ++ Runs.held (r :: rest) a) := by
    intro a
    rw [held_cons, held_cons]
    by_cases ha : r.agentId = a
    · rw [if_pos ha, if_pos ha, if_pos ha, List.singleton_append, ← List.cons_append]
      exact hperm.append_right _
    · rw [if_neg ha, if_neg ha, if_neg ha, List.nil_append, List.nil_append]
  refine ⟨?_, ?_, ?_, ?_⟩
  · exact k.ids
  · exact List.forall_mem_cons.mpr (List.forall_mem_cons.mp k.live)
  · intro a
    refine ((hheld a).map Message.key).nodup_iff.mpr ?_
    by_cases ha : r.agentId = a
    · subst ha
      rw [if_pos rfl, List.map_append, List.map_singleton, List.singleton_append, List.nodup_cons]
      exact ⟨hnew, k.keys _⟩
    · rw [if_neg ha, List.nil_append]
      exact k.keys a
  · intro p hp
    have hstays : ∀ x : RunRecord, x.asyncHelper = none → x.status.isTerminal = false → Stays x :=
      fun x hx ht => ⟨hx, fun _ => ht⟩
    rcases List.mem_cons.mp hp with rfl | hp
    · exact ⟨_, List.mem_cons_self, rfl, hstays _ hhelper hactive, hperm.mem_iff.mpr List.mem_cons_self⟩
    · obtain ⟨x, hx, hagent, hs, hm⟩ := k.held p hp
      rcases List.mem_cons.mp hx with rfl | hx
      · exact ⟨_, List.mem_cons_self, hagent, hstays _ hhelper hactive, hperm.mem_iff.mpr (List.mem_cons_of_mem _ hm)⟩
      · exact ⟨x, List.mem_cons_of_mem _ hx, hagent, hs, hm⟩

/-- The ledger and its last save hold the accepted steers. -/
structure Sound (agents : List String) (j : Journal) : Prop where
  keyed : RunLedger.Keyed j.ledger
  ledger : Kept agents j.accepted j.ledger.records
  saved : Kept agents j.accepted j.saved

def FreshRuns (ledger : RunLedger) (fresh : ℕ → String) : Prop :=
  Function.Injective fresh ∧ ∀ i, ledger[fresh i]? = none

def Allowed (agents : List String) (j : Journal) : Op → Prop
  | .begin record =>
    j.ledger[record.id]? = none ∧ agents.contains record.agentId = true ∧ record.pendingSteers = [] ∧
      record.steeredKeys = [] ∧ ∀ key ∈ record.idempotencyKey, key ∉ heldKeys j.ledger.records record.agentId
  | .start _ _ => True
  | .accept runId steer => ∃ r, j.ledger[runId]? = some r ∧ r.asyncHelper = none ∧ r.status.isTerminal = false ∧
      steer.idempotencyKey ∉ heldKeys j.ledger.records r.agentId
  | .handOn left _ _ fresh => ∃ r, j.ledger[left.runId]? = some r ∧ r.asyncHelper = none ∧ r.agentId = left.agentId ∧
      Unread r left ∧ FreshRuns j.ledger fresh
  | .commit runId taken _ _ _ =>
    ∃ r, j.ledger[runId]? = some r ∧ r.asyncHelper = none ∧ ∀ s ∈ taken, r.Joined s
  | .rollback runId taken _ _ fresh =>
    ∃ r, j.ledger[runId]? = some r ∧ r.asyncHelper = none ∧ (∀ s ∈ taken, r.Joined s) ∧ FreshRuns j.ledger fresh
  | .save => True
  | .restart _ _ fresh =>
    (∀ a i b k, fresh a i = fresh b k → a = b ∧ i = k) ∧ ∀ a i, ∀ r ∈ j.saved, fresh a i ≠ r.id

/-! ## One operation -/

theorem MovedOne.perm {news news' : List RunRecord} (h : MovedOne r news) (hp : news'.Perm news) : MovedOne r news' where
  agent := fun x hx => h.agent x (hp.mem_iff.mp hx)
  held := (hp.flatMap_right _).subperm.trans h.held
  stays := by
    intro hs m hm
    obtain ⟨x, hx, h'⟩ := h.stays hs m hm
    exact ⟨x, hp.mem_iff.mpr hx, h'⟩

section Replaced

variable {ledger : RunLedger} {id : String} {news : List RunRecord}

theorem Kept.replaced (k : Kept agents accepted ledger.records) (hk : RunLedger.Keyed ledger) (hr : ledger[id]? = some r)
    (hid : r'.id = id) (hm : MovedOne r (r' :: news)) (hn : (news.map (·.id)).Nodup)
    (hnew : ∀ x ∈ news, ledger[x.id]? = none) :
    RunLedger.Keyed (news.foldl RunLedger.add (ledger.insert id r')) ∧
      Kept agents accepted (RunLedger.records (news.foldl RunLedger.add (ledger.insert id r'))) := by
  have hkeyed : RunLedger.Keyed (news.foldl RunLedger.add (ledger.insert id r')) := (hk.insert hid).foldl_add news
  refine ⟨hkeyed, ?_⟩
  obtain ⟨rest, hp, hp'⟩ := RunLedger.records_replace hr
  have hnew' : ∀ x ∈ news, (ledger.insert id r')[x.id]? = none := by
    intro x hx
    have hnone := hnew x hx
    have hne : id ≠ x.id := by
      rintro rfl
      rw [hr] at hnone
      cases hnone
    rw [Table.getElem?_insert_eq, if_neg hne, hnone]
  have hall : (RunLedger.records (news.foldl RunLedger.add (ledger.insert id r'))).Perm ((r' :: news) ++ rest) := by
    refine (RunLedger.records_foldl_add hn hnew').trans ?_
    exact ((hp' r').append_left news).trans List.perm_middle
  exact k.moved (Moved.replace hm hp hall) hkeyed.ids

theorem Kept.modified {f : RunRecord → RunRecord} (k : Kept agents accepted ledger.records) (hk : RunLedger.Keyed ledger)
    (hr : ledger[id]? = some r) (hid : (f r).id = id) (hm : MovedOne r [f r]) :
    RunLedger.Keyed (ledger.modify id f) ∧ Kept agents accepted (RunLedger.records (ledger.modify id f)) := by
  rw [RunLedger.modify_eq_insert hr]
  have hnew : ∀ x ∈ ([] : List RunRecord), ledger[x.id]? = none := fun _ hx => absurd hx List.not_mem_nil
  exact k.replaced hk hr hid hm List.nodup_nil hnew

end Replaced

section Step

variable {j : Journal}

theorem Sound.mem (s : Sound agents j) {id : String} (hr : j.ledger[id]? = some r) : r ∈ j.ledger.records ∧ r.id = id :=
  ⟨RunLedger.mem_records.mpr ⟨id, hr⟩, s.keyed id r hr⟩

theorem Sound.begin (s : Sound agents j) (h : Allowed agents j (.begin r)) :
    Sound agents (j.step agents (.begin r)) := by
  obtain ⟨hnone, hlive, hpending, hsteered, hkey⟩ := h
  have hmessages : r.messages = r.own.toList := by
    unfold RunRecord.messages
    rw [hpending, hsteered]
    rfl
  have hown : ∀ m ∈ r.own.toList, ∃ key, r.idempotencyKey = some key ∧ m.key = key := by
    intro m hm
    rw [Option.mem_toList] at hm
    obtain ⟨key, hkey, rfl⟩ := Option.map_eq_some_iff.mp hm
    exact ⟨key, hkey, rfl⟩
  refine ⟨s.keyed.add r, ?_, s.saved⟩
  refine Kept.perm ?_ (RunLedger.records_add hnone)
  refine s.ledger.cons ?_ hlive ?_ ?_
  · intro x hx heq
    rw [s.keyed.mem_records, heq, hnone] at hx
    cases hx
  · rw [hmessages]
    cases r.own with
    | none => exact List.nodup_nil
    | some m => exact List.nodup_singleton _
  · intro m hm
    rw [hmessages] at hm
    obtain ⟨key, hsome, heq⟩ := hown m hm
    exact heq ▸ hkey key hsome

theorem Sound.start (s : Sound agents j) {runId : String} : Sound agents (j.step agents (.start runId now)) := by
  cases hr : j.ledger[runId]? with
  | none =>
    have hsame : j.step agents (.start runId now) = j := by
      simp only [Journal.step, RunLedger.modify_eq_self hr]
    rwa [hsame]
  | some r =>
    obtain ⟨hkeyed, hkept⟩ := s.ledger.modified (f := fun r => r.start now) s.keyed hr (s.mem hr).2 movedOne_start
    exact ⟨hkeyed, hkept, s.saved⟩

theorem Sound.accept (s : Sound agents j) {runId : String} {steer : RunSteer} (h : Allowed agents j (.accept runId steer)) :
    Sound agents (j.step agents (.accept runId steer)) := by
  obtain ⟨r, hr, hhelper, hactive, hnew⟩ := h
  obtain ⟨rest, hp, hp'⟩ := RunLedger.records_replace hr
  have hledger : j.ledger.join runId steer =
      j.ledger.insert runId { r with pendingSteers := r.pendingSteers ++ [steer] } := RunLedger.modify_eq_insert hr
  have hkeyed : RunLedger.Keyed (j.ledger.join runId steer) := by
    rw [hledger]
    exact s.keyed.insert (s.mem hr).2
  have hkept : Kept agents ((r.agentId, steer) :: j.accepted) (j.ledger.join runId steer).records := by
    rw [hledger]
    have hnew' : steer.idempotencyKey ∉ heldKeys (r :: rest) r.agentId :=
      fun hmem => hnew ((heldKeys_perm hp).mem_iff.mpr hmem)
    exact ((s.ledger.perm hp.symm).join hhelper hactive hnew').perm (hp' _)
  have hagent : (j.ledger[runId]?.map RunRecord.agentId).getD "" = r.agentId := by
    rw [hr]
    rfl
  refine ⟨hkeyed, ?_, ?_⟩
  · simp only [Journal.step, hagent]
    exact hkept
  · simp only [Journal.step, hagent]
    exact hkept.snapshot

theorem handOnSteers_eq {ledger : RunLedger} {left : SteerLeftovers} {openSlots : ℕ} {fresh : ℕ → String}
    (hr : ledger[left.runId]? = some r) (hhelper : r.asyncHelper = none) (hlive : agents.contains left.agentId = true) :
    handOnSteers ledger agents left openSlots now fresh =
      (handedRuns r left openSlots now fresh).foldl RunLedger.add (ledger.insert left.runId (r.keepTaken left.taken)) := by
  have hnone : (ledger[left.runId]?.filter fun r => r.asyncHelper.isSome) = none := by
    rw [hr]
    simp [Option.filter, hhelper]
  unfold handOnSteers
  rw [hnone]
  simp only [takeLeftoverSteers, hr, Option.map_some, Option.getD_some, hlive, Bool.true_eq_false, or_false]
  split_ifs with hnil
  · unfold handedRuns
    unfold leftOf
    rw [hnil]
    rfl
  · rfl

theorem nodup_map_range {fresh : ℕ → String} (h : Function.Injective fresh) (n : ℕ) :
    ((List.range n).map fresh).Nodup := List.nodup_range.map h

theorem Sound.handOn (s : Sound agents j) {left : SteerLeftovers} {openSlots : ℕ} {fresh : ℕ → String}
    (h : Allowed agents j (.handOn left openSlots now fresh)) :
    Sound agents (j.step agents (.handOn left openSlots now fresh)) := by
  obtain ⟨r, hr, hhelper, hagent, hunread, hinj, hfresh⟩ := h
  obtain ⟨hmem, hid⟩ := s.mem hr
  have hlive : agents.contains left.agentId = true := hagent ▸ s.ledger.live r hmem
  obtain ⟨n, hids⟩ := ids_handedRuns now left openSlots fresh (r := r)
  have hnew : ∀ x ∈ handedRuns r left openSlots now fresh, j.ledger[x.id]? = none := by
    intro x hx
    have hxid : x.id ∈ (List.range n).map fresh := hids ▸ List.mem_map_of_mem hx
    obtain ⟨i, _, heq⟩ := List.mem_map.mp hxid
    rw [← heq]
    exact hfresh i
  have hmoved := movedOne_handedRuns now openSlots fresh
    (s.ledger.messages_nodup hmem) hagent hunread
  obtain ⟨hkeyed, hkept⟩ := s.ledger.replaced s.keyed hr (show (r.keepTaken left.taken).id = left.runId from hid) hmoved
    (hids ▸ nodup_map_range hinj n) hnew
  rw [← handOnSteers_eq hr hhelper hlive] at hkeyed hkept
  exact ⟨hkeyed, hkept, s.saved⟩

theorem id_commit {taken : List RunSteer} {outcome : RunOutcome} : (r.commit taken outcome now).id = r.id := by
  unfold RunRecord.commit RunRecord.commitSteers
  split_ifs
  · rfl
  · rfl
  · rfl
  · rfl

theorem Sound.commit (s : Sound agents j) {runId : String} {taken : List RunSteer} {outcome : RunOutcome}
    {pins : List String} (h : Allowed agents j (.commit runId taken outcome now pins)) :
    Sound agents (j.step agents (.commit runId taken outcome now pins)) := by
  obtain ⟨r, hr, _, hjoined⟩ := h
  obtain ⟨hmem, hid⟩ := s.mem hr
  obtain ⟨hkeyed, hkept⟩ := s.ledger.modified (f := fun r => r.commit taken outcome now) s.keyed hr (id_commit.trans hid)
    (movedOne_commit (s.ledger.messages_nodup hmem) hjoined)
  have hpruned : RunLedger.Keyed (j.ledger.commitRun runId taken outcome now pins) := hkeyed.prune
  exact ⟨hpruned, hkept.moved (RunLedger.moved_prune _ _ hkeyed) hpruned.ids, s.saved⟩

theorem id_rollback {taken : List RunSteer} {error : RunError} : (r.rollback taken error now).id = r.id := by
  unfold RunRecord.rollback RunRecord.revertSteers
  split_ifs
  · rfl
  · rfl

theorem ids_steersToSendAgain (fresh : ℕ → String) :
    ∃ n, (r.steersToSendAgain fresh).1.map (·.id) = (List.range n).map fresh := by
  unfold RunRecord.steersToSendAgain
  split_ifs
  · exact ⟨0, rfl⟩
  · exact ⟨0, rfl⟩
  · refine ⟨r.pendingSteers.length, List.ext_getElem (by simp) fun i hi hi' => ?_⟩
    simp [RunRecord.queuedSteer]

variable (now) in
theorem Kept.offered {ledger : RunLedger} {id : String} {fresh : ℕ → String} (k : Kept agents accepted ledger.records)
    (hk : RunLedger.Keyed ledger) (hr : ledger[id]? = some r) (hhelper : r.asyncHelper = none)
    (hfresh : FreshRuns ledger fresh) :
    RunLedger.Keyed (ledger.offerSteersOfFailedRun id now fresh) ∧
      Kept agents accepted (ledger.offerSteersOfFailedRun id now fresh).records := by
  unfold RunLedger.offerSteersOfFailedRun
  rw [hr]
  by_cases hfailed : r.status = .failed
  · have hsome : ((some r).filter fun r => r.status == .failed) = some r := by
      simp [Option.filter, hfailed]
    rw [hsome]
    obtain ⟨n, hids⟩ := ids_steersToSendAgain fresh (r := r)
    have hids' : ((r.steersToSendAgain fresh).1.map fun x => x.finish .interrupted (some failedBeforeStart) now).map
        (·.id) = (List.range n).map fresh := by
      rw [List.map_map, ← hids]
      rfl
    have hid : (r.steersToSendAgain fresh).2.id = id := by
      rw [id_of_core RunRecord.core_steersToSendAgain]
      exact hk id r hr
    refine k.replaced hk hr hid ?_ (hids' ▸ nodup_map_range hfresh.1 n) ?_
    · exact (movedOne_offered hhelper).perm (@List.perm_append_comm _ [(r.steersToSendAgain fresh).2] _)
    · intro x hx
      have hxid : x.id ∈ (List.range n).map fresh := hids' ▸ List.mem_map_of_mem hx
      obtain ⟨i, _, heq⟩ := List.mem_map.mp hxid
      rw [← heq]
      exact hfresh.2 i
  · have hnone : ((some r).filter fun r => r.status == .failed) = none := by
      simp [Option.filter, hfailed]
    rw [hnone]
    exact ⟨hk, k⟩

theorem Sound.rollback (s : Sound agents j) {runId : String} {taken : List RunSteer} {error : RunError}
    {fresh : ℕ → String} (h : Allowed agents j (.rollback runId taken error now fresh)) :
    Sound agents (j.step agents (.rollback runId taken error now fresh)) := by
  obtain ⟨r, hr, hhelper, hjoined, hinj, hnew⟩ := h
  obtain ⟨hmem, hid⟩ := s.mem hr
  obtain ⟨hkeyed, hkept⟩ := s.ledger.modified (f := fun r => r.rollback taken error now) s.keyed hr (id_rollback.trans hid)
    (movedOne_rollback (s.ledger.messages_nodup hmem) hjoined)
  have hfound : (j.ledger.modify runId fun r => r.rollback taken error now)[runId]? = some (r.rollback taken error now) := by
    rw [Table.getElem?_modify_eq, if_pos rfl, hr]
    rfl
  have hhelper' : (r.rollback taken error now).asyncHelper = none := by
    have hsame := asyncHelper_revertSteers taken (r := { r with replyMessageId := none })
    show Option.map _ (RunRecord.revertSteers { r with replyMessageId := none } taken).asyncHelper = none
    rw [hsame]
    show Option.map _ r.asyncHelper = none
    rw [hhelper]
    rfl
  have hfresh : FreshRuns (j.ledger.modify runId fun r => r.rollback taken error now) fresh := by
    refine ⟨hinj, fun i => ?_⟩
    have hne : runId ≠ fresh i := by
      rintro rfl
      rw [hnew i] at hr
      cases hr
    rw [Table.getElem?_modify_eq, if_neg hne, hnew i]
  obtain ⟨hkeyed', hkept'⟩ := hkept.offered now hkeyed hfound hhelper' hfresh
  exact ⟨hkeyed', hkept', s.saved⟩

theorem Sound.save (s : Sound agents j) : Sound agents (j.step agents .save) := ⟨s.keyed, s.ledger, s.ledger.snapshot⟩

theorem Sound.restart (s : Sound agents j) {pins : List String} {fresh : String → ℕ → String}
    (h : Allowed agents j (.restart now pins fresh)) : Sound agents (j.step agents (.restart now pins fresh)) := by
  have hn := nodup_restartList now h.1 h.2 s.saved.ids
  have hrestarted : Kept agents j.accepted (restartList fresh j.saved now) :=
    s.saved.moved (Moved.flatMap fun _ _ => movedOne_restarted) hn
  have hledger := hrestarted.perm (RunLedger.records_ofRecords hn)
  have hkeyed := RunLedger.keyed_ofRecords hn
  have hkept := hledger.moved (RunLedger.moved_prune now pins hkeyed) hkeyed.prune.ids
  have heq := RunLedger.restoredWithPins_eq now fresh pins s.saved.live
  refine ⟨?_, ?_, s.saved⟩
  · show RunLedger.Keyed (RunLedger.restoredWithPins fresh j.saved agents now pins)
    rw [heq]
    exact hkeyed.prune
  · show Kept agents j.accepted (RunLedger.restoredWithPins fresh j.saved agents now pins).records
    rw [heq]
    exact hkept

theorem Sound.step (s : Sound agents j) (op : Op) (h : Allowed agents j op) : Sound agents (j.step agents op) := by
  cases op with
  | begin record => exact s.begin h
  | start runId now => exact s.start
  | accept runId steer => exact s.accept h
  | handOn left openSlots now fresh => exact s.handOn h
  | commit runId taken outcome now pins => exact s.commit h
  | rollback runId taken error now fresh => exact s.rollback h
  | save => exact s.save
  | restart now pins fresh => exact s.restart h

end Step

/-! ## Whole runs -/

theorem RunLedger.holdings_message {ledger : RunLedger} :
    (ledger.holdings a).map Holding.message = held ledger.records a := by
  unfold RunLedger.holdings held
  rw [List.map_flatMap]
  congr 1
  funext r
  exact RunRecord.holdings_message

theorem filter_key_eq_singleton {α : Type} {key : α → String} {l : List α} {x : α} (hn : (l.map key).Nodup) (hx : x ∈ l) :
    (l.filter fun y => key y == key x) = [x] := by
  induction l with
  | nil => cases hx
  | cons y l ih =>
    rw [List.map_cons, List.nodup_cons] at hn
    rcases List.mem_cons.mp hx with rfl | hx
    · rw [List.filter_cons_of_pos (by simp), List.filter_eq_nil_iff.mpr]
      intro z hz heq
      exact hn.1 (List.mem_map.mpr ⟨z, hz, by simpa using heq⟩)
    · have hne : key y ≠ key x := fun heq => hn.1 (heq ▸ List.mem_map_of_mem hx)
      rw [List.filter_cons_of_neg (by simpa using hne), ih hn.2 hx]

theorem Kept.one_place {ledger : RunLedger} (k : Kept agents accepted ledger.records) {p : String × RunSteer}
    (hp : p ∈ accepted) :
    ∃ place, ((ledger.holdings p.1).filter fun h => h.message.key == p.2.idempotencyKey) = [place] ∧
      place.message = p.2.message := by
  obtain ⟨r, hr, hagent, _, hm⟩ := k.held p hp
  have hheld : p.2.message ∈ Runs.held ledger.records p.1 := mem_held.mpr ⟨r, hr, hagent, hm⟩
  rw [← RunLedger.holdings_message] at hheld
  obtain ⟨place, hplace, hmessage⟩ := List.mem_map.mp hheld
  have hkeys : ((ledger.holdings p.1).map fun h => h.message.key).Nodup := by
    have h := k.keys p.1
    unfold heldKeys at h
    rw [← RunLedger.holdings_message, List.map_map] at h
    exact h
  have hkey : place.message.key = p.2.idempotencyKey := by
    rw [hmessage]
    rfl
  refine ⟨place, ?_, hmessage⟩
  rw [← hkey]
  exact filter_key_eq_singleton hkeys hplace

theorem atRest_foldl_add {ledger : RunLedger} {news : List RunRecord}
    (h : ∀ (id : String) r, ledger[id]? = some r → AtRest r) (hnews : ∀ x ∈ news, AtRest x) :
    ∀ (id : String) r, (news.foldl RunLedger.add ledger)[id]? = some r → AtRest r := by
  induction news generalizing ledger with
  | nil => exact h
  | cons x news ih =>
    refine ih ?_ fun y hy => hnews y (List.mem_cons_of_mem _ hy)
    intro id r hr
    have hget : (ledger.insert x.id x)[id]? = some r := hr
    rw [Table.getElem?_insert_eq] at hget
    split_ifs at hget with heq
    · cases hget
      exact hnews x List.mem_cons_self
    · exact h id r hget

theorem atRest_restored {fresh : String → ℕ → String} {pins : List String}
    (hr : r ∈ (RunLedger.restoredWithPins fresh records agents now pins).records) : AtRest r := by
  have hfold : ∀ (l : List RunRecord) (ledger : RunLedger), (∀ (id : String) r, ledger[id]? = some r → AtRest r) →
      ∀ (id : String) r, (l.foldl (RunLedger.restoreRecord fresh agents now) ledger)[id]? = some r → AtRest r := by
    intro l
    induction l with
    | nil => exact fun _ h => h
    | cons x l ih =>
      intro ledger h
      refine ih _ ?_
      unfold RunLedger.restoreRecord
      split_ifs
      · have hone : ∀ y ∈ [x.restarted (fresh x.id) now], AtRest y := by
          intro y hy
          rw [List.mem_singleton.mp hy]
          exact atRest_restarted
        exact atRest_foldl_add (atRest_foldl_add h fun y hy => atRest_sentAgain hy) hone
      · exact h
  obtain ⟨id, hid⟩ := RunLedger.mem_records.mp (RunLedger.mem_records_prune.mp hr).1
  refine hfold records ∅ ?_ id r hid
  intro id r hr
  rw [Std.ExtTreeMap.getElem?_empty] at hr
  cases hr

/-- **No steer is lost or run twice**: over all runs of the operations, each accepted steer is in exactly one place,
with its input and its acceptance time; and a restart leaves no run in progress and no steer waiting. -/
theorem steers_in_one_place (agents : List String) (ledger₀ : RunLedger) (saved₀ : List RunRecord)
    (h₀ : Sound agents { ledger := ledger₀, saved := saved₀, accepted := [] }) (j : Journal)
    (h : Reaches (Journal.step agents) (Allowed agents) { ledger := ledger₀, saved := saved₀, accepted := [] } j) :
    (∀ p ∈ j.accepted, ∃ place,
      ((j.ledger.holdings p.1).filter fun h => h.message.key == p.2.idempotencyKey) = [place] ∧
        place.message = p.2.message) ∧
      ∀ now pins fresh, ∀ r ∈ (j.step agents (.restart now pins fresh)).ledger.records,
        r.status.isTerminal = true ∧ r.pendingSteers = [] := by
  have hsound : Sound agents j := h.invariant h₀ fun _ op _ s hop => s.step op hop
  refine ⟨fun p hp => hsound.ledger.one_place hp, ?_⟩
  intro now pins fresh r hr
  have hrest : AtRest r := atRest_restored hr
  exact ⟨hrest.terminal, hrest.pending⟩

/-! ## An example -/

def sampleRun : RunRecord :=
  { orphan [] with
    id := "run_first", source := .web, status := .running, finishedAtMs := none, parentRunId := none
    helperCompletion := none, replyMessageId := none, mirrored := false }

def sampleStart : Journal := { ledger := ∅, saved := [], accepted := [] }

def sampleJoined : Journal :=
  (sampleStart.step ["companion"] (.begin sampleRun)).step ["companion"] (.accept "run_first" sampleSteer)

def sampleJournal : Journal := sampleJoined.step ["companion"] (.restart 10 [] sampleFresh)

theorem sampleStart_sound : Sound ["companion"] sampleStart := by
  have hnone : sampleStart.ledger.records = [] := rfl
  have hkept : Kept ["companion"] [] ([] : List RunRecord) :=
    ⟨List.nodup_nil, fun _ h => absurd h List.not_mem_nil, fun _ => List.nodup_nil, fun _ h => absurd h List.not_mem_nil⟩
  refine ⟨?_, hnone ▸ hkept, hkept⟩
  intro id r h
  rw [show sampleStart.ledger = ∅ from rfl, Std.ExtTreeMap.getElem?_empty] at h
  cases h

theorem sampleJournal_reached :
    Reaches (Journal.step ["companion"]) (Allowed ["companion"]) sampleStart sampleJournal := by
  have hbegin : Allowed ["companion"] sampleStart (.begin sampleRun) := by
    refine ⟨rfl, by decide, rfl, rfl, ?_⟩
    rintro _ ⟨⟩
  have haccept : Allowed ["companion"] (sampleStart.step ["companion"] (.begin sampleRun))
      (.accept "run_first" sampleSteer) := by
    refine ⟨sampleRun, ?_, rfl, rfl, ?_⟩
    · decide +kernel
    · decide +kernel
  have hsound : Sound ["companion"] sampleJoined := (sampleStart_sound.begin hbegin).accept haccept
  have hrestart : Allowed ["companion"] sampleJoined (.restart 10 [] sampleFresh) := by
    refine ⟨sampleFresh_injective, ?_⟩
    intro a i r hr
    have hmem : r ∈ sampleJoined.ledger.records :=
      (List.mem_filter.mp (RunLedger.snapshotRecords_perm.mem_iff.mp hr)).1
    rw [hsound.keyed.mem_records] at hmem
    have hid : r.id = "run_first" := by
      by_contra hne
      have hget : (((∅ : RunLedger).insert "run_first" sampleRun).modify "run_first" fun r =>
        { r with pendingSteers := r.pendingSteers ++ [sampleSteer] })[r.id]? = some r := hmem
      rw [Table.getElem?_modify_eq, if_neg fun h => hne h.symm, Table.getElem?_insert_eq, if_neg fun h => hne h.symm,
        Std.ExtTreeMap.getElem?_empty] at hget
      cases hget
    rw [hid]
    exact sampleFresh_ne (by decide)
  exact ((Reaches.start.next _ hbegin).next _ haccept).next _ hrestart

/-- The steer of the example is in one place after the restart. -/
theorem sample_in_one_place :
    ∃ place, ((sampleJournal.ledger.holdings "companion").filter fun h => h.message.key == "key") = [place] ∧
      place.message = sampleSteer.message :=
  (steers_in_one_place ["companion"] ∅ [] sampleStart_sound sampleJournal sampleJournal_reached).1
    ("companion", sampleSteer) (by decide +kernel)

end AnimaCore.Runs
