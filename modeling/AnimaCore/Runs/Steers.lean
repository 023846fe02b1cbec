import AnimaCore.Lib.PushNew
import AnimaCore.Runs.Queue
import AnimaCore.Runs.Reload

/-!
# AnimaCore.Runs.Steers — no steer is lost or run twice

Where the messages of an owner are: each is a `Message`, and a `Holding` is one place that has it.

* `held records a`: all the messages of the agent `a`, with repetitions.
* `Moved records records'`: `records'` holds no message more often than `records`, and every message of a record that
  retention leaves alone is still there.  A restart and the retention are cases (`moved_restartList`, `moved_prune`), and
  so is every operation that replaces one record (`Moved.replace`).
* `MovedOne r news`: the same for one record and those that take its place.
-/

namespace AnimaCore.Runs

open Lib

variable {records records' : List RunRecord} {r r' : RunRecord} {a : String} {now : ℕ}

/-! ## Messages -/

structure Message where
  key : String
  input : Option RunInput
  atMs : ℕ
  deriving DecidableEq, Repr

/-- The places of a message: waiting on a record, read by its run, or a run of its own. -/
inductive Home
  | pending
  | steered
  | own
  deriving DecidableEq, Repr

structure Holding where
  home : Home
  runId : String
  message : Message
  deriving DecidableEq, Repr

def RunSteer.message (s : RunSteer) : Message := { key := s.idempotencyKey, input := some s.input, atMs := s.acceptedAtMs }

def SteeredKey.message (s : SteeredKey) : Message := { key := s.idempotencyKey, input := s.input, atMs := s.acceptedAtMs }

namespace RunRecord

/-- The message that a run is of, if it has a key. -/
def own (r : RunRecord) : Option Message :=
  r.idempotencyKey.map fun key => { key, input := some r.input, atMs := r.createdAtMs }

def holdings (r : RunRecord) : List Holding :=
  r.pendingSteers.map (fun s => { home := .pending, runId := r.id, message := s.message }) ++
    r.steeredKeys.map (fun s => { home := .steered, runId := r.id, message := s.message }) ++
    r.own.toList.map fun m => { home := .own, runId := r.id, message := m }

def messages (r : RunRecord) : List Message :=
  r.pendingSteers.map RunSteer.message ++ r.steeredKeys.map SteeredKey.message ++ r.own.toList

theorem holdings_message : r.holdings.map Holding.message = r.messages := by
  simp [holdings, messages, Function.comp_def]

end RunRecord

def RunLedger.holdings (ledger : RunLedger) (a : String) : List Holding :=
  (ledger.records.filter fun r => r.agentId == a).flatMap RunRecord.holdings

def held (records : List RunRecord) (a : String) : List Message :=
  (records.filter fun r => r.agentId == a).flatMap RunRecord.messages

def heldKeys (records : List RunRecord) (a : String) : List String := (held records a).map Message.key

theorem held_cons : held (r :: records) a = (if r.agentId = a then r.messages else []) ++ held records a := by
  unfold held
  by_cases h : r.agentId = a
  · rw [if_pos h, List.filter_cons_of_pos (by simpa using h), List.flatMap_cons]
  · rw [if_neg h, List.filter_cons_of_neg (by simpa using h), List.nil_append]

theorem held_append : held (records ++ records') a = held records a ++ held records' a := by
  unfold held
  rw [List.filter_append, List.flatMap_append]

theorem held_perm (h : records.Perm records') : (held records a).Perm (held records' a) :=
  (h.filter _).flatMap_right _

theorem held_subperm (h : records.Subperm records') : (held records a).Subperm (held records' a) := by
  obtain ⟨l, hp, hl⟩ := h
  exact ⟨held l a, held_perm hp, (hl.filter _).flatMap _⟩

theorem heldKeys_perm (h : records.Perm records') : (heldKeys records a).Perm (heldKeys records' a) :=
  (held_perm h).map _

theorem mem_held {m : Message} : m ∈ held records a ↔ ∃ r ∈ records, r.agentId = a ∧ m ∈ r.messages := by
  simp only [held, List.mem_flatMap, List.mem_filter, beq_iff_eq, and_assoc]

/-! ## Records that take the place of others -/

/-- A record of no helper, which the retention leaves alone. -/
def Stays (r : RunRecord) : Prop := r.asyncHelper = none ∧ (r.mirrored = true → r.status.isTerminal = false)

/-- The records `news` in the place of `r`. -/
structure MovedOne (r : RunRecord) (news : List RunRecord) : Prop where
  agent : ∀ x ∈ news, x.agentId = r.agentId
  held : (news.flatMap RunRecord.messages).Subperm r.messages
  stays : Stays r → ∀ m ∈ r.messages, ∃ x ∈ news, Stays x ∧ m ∈ x.messages

/-- The records `records'` in the place of `records`. -/
structure Moved (records records' : List RunRecord) : Prop where
  agent : ∀ x ∈ records', ∃ r ∈ records, r.agentId = x.agentId
  held : ∀ a, (held records' a).Subperm (held records a)
  stays : ∀ r ∈ records, Stays r → ∀ m ∈ r.messages, ∃ x ∈ records', x.agentId = r.agentId ∧ Stays x ∧ m ∈ x.messages

theorem Moved.of_perm (h : records'.Perm records) : Moved records records' where
  agent := fun x hx => ⟨x, h.mem_iff.mp hx, rfl⟩
  held := fun _ => (held_perm h).subperm
  stays := fun r hr hs _ hm => ⟨r, h.mem_iff.mpr hr, rfl, hs, hm⟩

theorem Moved.trans {l : List RunRecord} (h : Moved records records') (h' : Moved records' l) : Moved records l where
  agent := by
    intro x hx
    obtain ⟨y, hy, heq⟩ := h'.agent x hx
    obtain ⟨z, hz, heq'⟩ := h.agent y hy
    exact ⟨z, hz, heq'.trans heq⟩
  held := fun a => (h'.held a).trans (h.held a)
  stays := by
    intro r hr hs m hm
    obtain ⟨x, hx, hagent, hxs, hxm⟩ := h.stays r hr hs m hm
    obtain ⟨y, hy, hagent', hys, hym⟩ := h'.stays x hx hxs m hxm
    exact ⟨y, hy, hagent'.trans hagent, hys, hym⟩

theorem MovedOne.held_subperm {news : List RunRecord} (h : MovedOne r news) :
    (Runs.held news a).Subperm (if r.agentId = a then r.messages else []) := by
  by_cases ha : r.agentId = a
  · rw [if_pos ha]
    have hall : (news.filter fun x => x.agentId == a) = news :=
      List.filter_eq_self.mpr fun x hx => by simpa [ha] using h.agent x hx
    unfold Runs.held
    rw [hall]
    exact h.held
  · rw [if_neg ha]
    have hnone : (news.filter fun x => x.agentId == a) = [] := by
      rw [List.filter_eq_nil_iff]
      intro x hx
      simpa [h.agent x hx] using ha
    unfold Runs.held
    rw [hnone]
    exact List.Subperm.refl _

theorem Moved.flatMap {f : RunRecord → List RunRecord} (h : ∀ r ∈ records, MovedOne r (f r)) :
    Moved records (records.flatMap f) where
  agent := by
    intro x hx
    obtain ⟨r, hr, hxr⟩ := List.mem_flatMap.mp hx
    exact ⟨r, hr, ((h r hr).agent x hxr).symm⟩
  held := by
    intro a
    induction records with
    | nil => exact List.Subperm.refl _
    | cons r rest ih =>
      rw [List.flatMap_cons, held_append, held_cons]
      have hrest := ih fun x hx => h x (List.mem_cons_of_mem _ hx)
      refine ((List.subperm_append_left _).mpr hrest).trans ?_
      exact (List.subperm_append_right _).mpr (h r List.mem_cons_self).held_subperm
  stays := by
    intro r hr hs m hm
    obtain ⟨x, hx, hxs, hxm⟩ := (h r hr).stays hs m hm
    exact ⟨x, List.mem_flatMap.mpr ⟨r, hr, hx⟩, (h r hr).agent x hx, hxs, hxm⟩

theorem Moved.replace {news rest : List RunRecord} (h : MovedOne r news) (hp : records.Perm (r :: rest))
    (hp' : records'.Perm (news ++ rest)) : Moved records records' := by
  have hcons : Moved (r :: rest) (news ++ rest) := by
    refine ⟨?_, ?_, ?_⟩
    · intro x hx
      rcases List.mem_append.mp hx with hx | hx
      · exact ⟨r, List.mem_cons_self, (h.agent x hx).symm⟩
      · exact ⟨x, List.mem_cons_of_mem _ hx, rfl⟩
    · intro a
      rw [held_append, held_cons]
      exact (List.subperm_append_right _).mpr h.held_subperm
    · intro x hx hs m hm
      rcases List.mem_cons.mp hx with rfl | hx
      · obtain ⟨y, hy, hys, hym⟩ := h.stays hs m hm
        exact ⟨y, List.mem_append_left _ hy, h.agent y hy, hys, hym⟩
      · exact ⟨x, List.mem_append_right _ hx, rfl, hs, hm⟩
  exact ((Moved.of_perm hp.symm).trans hcons).trans (Moved.of_perm hp')

/-! ## The ledger -/

namespace RunLedger

variable {ledger : RunLedger} {id : String} {pins : List String}

theorem records_replace (h : ledger[id]? = some r) :
    ∃ rest, ledger.records.Perm (r :: rest) ∧ ∀ r', (RunLedger.records (ledger.insert id r')).Perm (r' :: rest) := by
  refine ⟨RunLedger.records (ledger.erase id), ?_, ?_⟩
  · exact (Table.toList_perm_erase h).map Prod.snd
  · intro r'
    have hself : (ledger.insert id r')[id]? = some r' := by
      rw [Table.getElem?_insert_eq, if_pos rfl]
    have hp := (Table.toList_perm_erase hself).map Prod.snd
    rwa [Table.erase_insert_self] at hp

theorem records_add (h : ledger[r.id]? = none) : (ledger.add r).records.Perm (r :: ledger.records) :=
  (Table.toList_insert_perm (Table.not_mem_iff_getElem?_eq_none.mpr h)).map Prod.snd

theorem records_foldl_add {news : List RunRecord} (hn : (news.map (·.id)).Nodup)
    (hnew : ∀ x ∈ news, ledger[x.id]? = none) : (RunLedger.records (news.foldl add ledger)).Perm (news ++ ledger.records) := by
  induction news generalizing ledger with
  | nil => exact List.Perm.refl _
  | cons x news ih =>
    rw [List.map_cons, List.nodup_cons] at hn
    have hnew' : ∀ y ∈ news, (ledger.add x)[y.id]? = none := by
      intro y hy
      have hne : x.id ≠ y.id := fun heq => hn.1 (heq ▸ List.mem_map_of_mem hy)
      show (ledger.insert x.id x)[y.id]? = none
      rw [Table.getElem?_insert_eq, if_neg hne]
      exact hnew y (List.mem_cons_of_mem _ hy)
    refine (ih hn.2 hnew').trans ?_
    refine ((records_add (hnew x List.mem_cons_self)).append_left news).trans ?_
    exact List.perm_middle

theorem modify_eq_insert {f : RunRecord → RunRecord} (h : ledger[id]? = some r) :
    ledger.modify id f = ledger.insert id (f r) := by
  refine Table.ext_getElem? fun k => ?_
  rw [Table.getElem?_modify_eq, Table.getElem?_insert_eq, h]
  rfl

theorem modify_eq_self {f : RunRecord → RunRecord} (h : ledger[id]? = none) : ledger.modify id f = ledger := by
  refine Table.ext_getElem? fun k => ?_
  rw [Table.getElem?_modify_eq]
  by_cases hk : id = k
  · rw [if_pos hk, h, ← hk, h]
    rfl
  · rw [if_neg hk]

theorem Keyed.insert (hk : Keyed ledger) (hid : r'.id = id) : Keyed (ledger.insert id r') := by
  intro k x hx
  rw [Table.getElem?_insert_eq] at hx
  split_ifs at hx with heq
  · cases hx
    rw [hid, heq]
  · exact hk k x hx

theorem Keyed.add (hk : Keyed ledger) (r : RunRecord) : Keyed (ledger.add r) := hk.insert rfl

theorem Keyed.foldl_add (hk : Keyed ledger) (news : List RunRecord) : Keyed (news.foldl RunLedger.add ledger) := by
  induction news generalizing ledger with
  | nil => exact hk
  | cons x news ih => exact ih (hk.add x)

variable (now pins) in
theorem moved_prune (hk : Keyed ledger) : Moved ledger.records (ledger.pruneWithPins now pins).records where
  agent := fun x hx => ⟨x, (mem_records_prune.mp hx).1, rfl⟩
  held := by
    intro a
    exact held_subperm (List.subperm_of_subset hk.prune.ids.of_map fun x hx => (mem_records_prune.mp hx).1)
  stays := by
    intro r hr hs m hm
    refine ⟨r, mem_records_prune.mpr ⟨hr, ?_⟩, rfl, hs, hm⟩
    cases hmirrored : r.mirrored with
    | false => exact not_expired (.inr (.inr (.inl hmirrored)))
    | true => exact not_expired (.inl (hs.2 hmirrored))

end RunLedger

/-! ## From one list of a record to the other -/

theorem transfer_perm {α β : Type} {ma : α → Message} {mb : β → Message} {source : List α} {dest : List β} (taken : List β)
    (keep : α → Bool) (hn : ((source.map ma ++ dest.map mb).map Message.key).Nodup)
    (htaken : ∀ t ∈ taken, mb t ∈ source.map ma ∨ t ∈ dest)
    (hkeep : ∀ x ∈ source, keep x = false ↔ ∃ t ∈ taken, (mb t).key = (ma x).key) :
    ((source.filter keep).map ma ++ (taken.foldl (pushNew fun t => (mb t).key) dest).map mb).Perm
      (source.map ma ++ dest.map mb) := by
  have hinj : ∀ m ∈ source.map ma ++ dest.map mb, ∀ m' ∈ source.map ma ++ dest.map mb, m.key = m'.key → m = m' :=
    fun m hm m' hm' heq => List.inj_on_of_nodup_map hn hm hm' heq
  have hparts := hn
  rw [List.map_append, List.nodup_append] at hparts
  obtain ⟨hsource, hdest, hapart⟩ := hparts
  -- what was pushed is a message of the record
  have hpushed : ∀ z ∈ taken.foldl (pushNew fun t => (mb t).key) dest, mb z ∈ source.map ma ++ dest.map mb := by
    intro z hz
    rcases mem_of_mem_foldl_pushNew hz with hz | hz
    · exact List.mem_append_right _ (List.mem_map_of_mem hz)
    · rcases htaken z hz with h | h
      · exact List.mem_append_left _ h
      · exact List.mem_append_right _ (List.mem_map_of_mem h)
  have hn' : (((source.filter keep).map ma ++
      (taken.foldl (pushNew fun t => (mb t).key) dest).map mb).map Message.key).Nodup := by
    rw [List.map_append, List.nodup_append]
    refine ⟨?_, ?_, ?_⟩
    · exact hsource.sublist ((List.filter_sublist.map ma).map Message.key)
    · rw [List.map_map]
      rw [List.map_map] at hdest
      exact nodup_foldl_pushNew taken hdest
    · rintro k hk k' hk' rfl
      obtain ⟨m, hm, rfl⟩ := List.mem_map.mp hk
      obtain ⟨x, hx, rfl⟩ := List.mem_map.mp hm
      obtain ⟨hxs, hxk⟩ := List.mem_filter.mp hx
      obtain ⟨m', hm', heq⟩ := List.mem_map.mp hk'
      obtain ⟨z, hz, rfl⟩ := List.mem_map.mp hm'
      rcases mem_of_mem_foldl_pushNew hz with hz | hz
      · exact hapart _ (List.mem_map_of_mem (List.mem_map_of_mem hxs)) _
          (List.mem_map_of_mem (List.mem_map_of_mem hz)) heq.symm
      · have hfalse := (hkeep x hxs).mpr ⟨z, hz, heq⟩
        rw [hxk] at hfalse
        cases hfalse
  rw [List.perm_ext_iff_of_nodup hn'.of_map hn.of_map]
  intro m
  constructor
  · intro hm
    rcases List.mem_append.mp hm with hm | hm
    · obtain ⟨x, hx, rfl⟩ := List.mem_map.mp hm
      exact List.mem_append_left _ (List.mem_map_of_mem (List.mem_filter.mp hx).1)
    · obtain ⟨z, hz, rfl⟩ := List.mem_map.mp hm
      exact hpushed z hz
  · intro hm
    rcases List.mem_append.mp hm with hsrc | hdst
    · obtain ⟨x, hx, rfl⟩ := List.mem_map.mp hsrc
      cases hk : keep x with
      | true => exact List.mem_append_left _ (List.mem_map_of_mem (List.mem_filter.mpr ⟨hx, hk⟩))
      | false =>
        obtain ⟨t, ht, heq⟩ := (hkeep x hx).mp hk
        obtain ⟨z, hz, hzk⟩ := key_mem_foldl_pushNew (fun t => (mb t).key) (l := dest) ht
        have hsame : mb z = ma x := hinj _ (hpushed z hz) _ hm (hzk.trans heq)
        exact List.mem_append_right _ (hsame ▸ List.mem_map_of_mem hz)
    · obtain ⟨z, hz, rfl⟩ := List.mem_map.mp hdst
      exact List.mem_append_right _ (List.mem_map_of_mem (subset_foldl_pushNew taken hz))

/-- The key that a run keeps of a steer it read. -/
def RunSteer.steered (s : RunSteer) : SteeredKey :=
  { idempotencyKey := s.idempotencyKey, acceptedAtMs := s.acceptedAtMs, input := some s.input }

theorem foldl_addSteeredKey (keys : List SteeredKey) (taken : List RunSteer) :
    taken.foldl RunRecord.addSteeredKey keys = (taken.map RunSteer.steered).foldl (pushNew fun t => t.message.key) keys := by
  rw [List.foldl_map]
  rfl

theorem foldl_addPendingSteer (pending taken : List RunSteer) :
    taken.foldl RunRecord.addPendingSteer pending = taken.foldl (pushNew fun t => t.message.key) pending := rfl

/-- A steer that joined a run: it waits there, or the run read it. -/
def RunRecord.Joined (r : RunRecord) (s : RunSteer) : Prop := s ∈ r.pendingSteers ∨ s.steered ∈ r.steeredKeys

theorem keys_of_messages (h : (r.messages.map Message.key).Nodup) :
    ((r.pendingSteers.map RunSteer.message ++ r.steeredKeys.map SteeredKey.message).map Message.key).Nodup := by
  unfold RunRecord.messages at h
  rw [List.map_append] at h
  exact (List.nodup_append.mp h).1

theorem any_key_eq_false {steers : List RunSteer} {key : String} :
    (!steers.any fun s => s.idempotencyKey == key) = false ↔ ∃ t ∈ steers, t.message.key = key := by
  rw [Bool.not_eq_false', List.any_eq_true]
  simp only [beq_iff_eq]
  rfl

theorem messages_commitSteers {taken : List RunSteer} (hn : (r.messages.map Message.key).Nodup)
    (htaken : ∀ s ∈ taken, r.Joined s) : (r.commitSteers taken).messages.Perm r.messages := by
  unfold RunRecord.commitSteers
  split_ifs with hnil
  · exact List.Perm.refl _
  · refine List.Perm.append_right _ ?_
    have hperm := transfer_perm (taken.map RunSteer.steered)
      (fun p => !taken.any fun s => s.idempotencyKey == p.idempotencyKey) (keys_of_messages hn)
      (by
        intro t ht
        obtain ⟨s, hs, rfl⟩ := List.mem_map.mp ht
        exact (htaken s hs).imp_left List.mem_map_of_mem)
      (by
        intro x _
        rw [any_key_eq_false]
        simp only [List.mem_map, exists_exists_and_eq_and]
        rfl)
    rw [← foldl_addSteeredKey] at hperm
    exact hperm

theorem messages_revertSteers {taken : List RunSteer} (hn : (r.messages.map Message.key).Nodup)
    (htaken : ∀ s ∈ taken, r.Joined s) : (r.revertSteers taken).messages.Perm r.messages := by
  unfold RunRecord.revertSteers
  split_ifs with hnil
  · exact List.Perm.refl _
  · refine List.Perm.append_right _ ?_
    have hn' := keys_of_messages hn
    rw [(List.perm_append_comm.map Message.key).nodup_iff] at hn'
    have hperm := transfer_perm taken
      (fun p => !taken.any fun s => s.idempotencyKey == p.idempotencyKey) hn'
      (by
        intro s hs
        exact (htaken s hs).symm.imp_left fun h => List.mem_map.mpr ⟨s.steered, h, rfl⟩)
      (by
        intro x _
        rw [any_key_eq_false]
        rfl)
    rw [← foldl_addPendingSteer] at hperm
    refine List.Perm.trans ?_ (hperm.trans List.perm_append_comm)
    exact (List.perm_append_comm.trans (List.Perm.append_left _ ((sortSteers_perm _).map _)))

/-! ## What takes the place of one record -/

theorem stays_finish {status : RunStatus} {error : Option RunError} (h : r.asyncHelper = none) :
    Stays (r.finish status error now) := by
  refine ⟨?_, nofun⟩
  show Option.map _ r.asyncHelper = none
  rw [h]
  rfl

theorem MovedOne.of_perm (hagent : r'.agentId = r.agentId) (hm : r'.messages.Perm r.messages) (hs : Stays r → Stays r') :
    MovedOne r [r'] where
  agent := fun x hx => by rw [List.mem_singleton.mp hx, hagent]
  held := by
    rw [List.flatMap_singleton]
    exact hm.subperm
  stays := fun h m hmem => ⟨r', List.mem_singleton.mpr rfl, hs h, hm.mem_iff.mpr hmem⟩

theorem movedOne_start : MovedOne r [r.start now] :=
  MovedOne.of_perm rfl (List.Perm.refl _) fun h => ⟨h.1, nofun⟩

theorem agentId_commitSteers (taken : List RunSteer) : (r.commitSteers taken).agentId = r.agentId := by
  unfold RunRecord.commitSteers
  split_ifs
  · rfl
  · rfl

theorem asyncHelper_commitSteers {taken : List RunSteer} : (r.commitSteers taken).asyncHelper = r.asyncHelper := by
  unfold RunRecord.commitSteers
  split_ifs
  · rfl
  · rfl

theorem movedOne_commit {taken : List RunSteer} {outcome : RunOutcome} (hn : (r.messages.map Message.key).Nodup)
    (htaken : ∀ s ∈ taken, r.Joined s) : MovedOne r [r.commit taken outcome now] := by
  -- the reply of the run is not a steer
  have hmessages : (r.commit taken outcome now).messages =
      (({ r with replyMessageId := outcome.replyMessageId } : RunRecord).commitSteers taken).messages := by
    unfold RunRecord.commit
    split_ifs
    · rfl
    · rfl
  have hagent : (r.commit taken outcome now).agentId = r.agentId := by
    have h := agentId_commitSteers taken (r := { r with replyMessageId := outcome.replyMessageId })
    unfold RunRecord.commit
    split_ifs
    · exact h
    · exact h
  refine MovedOne.of_perm hagent ?_ ?_
  · rw [hmessages]
    exact messages_commitSteers (r := { r with replyMessageId := outcome.replyMessageId }) hn htaken
  · intro h
    have hhelper : (({ r with replyMessageId := outcome.replyMessageId } : RunRecord).commitSteers taken).asyncHelper =
        none := asyncHelper_commitSteers.trans h.1
    have hfinish : Stays (({ r with replyMessageId := outcome.replyMessageId } : RunRecord).commitSteers taken |>.finish
        outcome.status outcome.error now) := stays_finish hhelper
    unfold RunRecord.commit
    split_ifs
    · exact hfinish
    · exact hfinish

theorem agentId_revertSteers (taken : List RunSteer) : (r.revertSteers taken).agentId = r.agentId := by
  unfold RunRecord.revertSteers
  split_ifs
  · rfl
  · rfl

theorem asyncHelper_revertSteers (taken : List RunSteer) : (r.revertSteers taken).asyncHelper = r.asyncHelper := by
  unfold RunRecord.revertSteers
  split_ifs
  · rfl
  · rfl

theorem movedOne_rollback {taken : List RunSteer} {error : RunError} (hn : (r.messages.map Message.key).Nodup)
    (htaken : ∀ s ∈ taken, r.Joined s) : MovedOne r [r.rollback taken error now] := by
  refine MovedOne.of_perm ?_ ?_ ?_
  · exact agentId_revertSteers taken (r := { r with replyMessageId := none })
  · exact messages_revertSteers (r := { r with replyMessageId := none }) hn htaken
  · intro h
    exact stays_finish ((asyncHelper_revertSteers taken).trans h.1)

theorem messages_sent {fresh : ℕ → String} (hhelper : r.asyncHelper = none) :
    (r.steersToSendAgain fresh).1.map RunRecord.messages = r.pendingSteers.map fun s => [s.message] := by
  unfold RunRecord.steersToSendAgain
  rw [if_neg (by simp [hhelper])]
  split_ifs with hnil
  · rw [hnil]
    rfl
  · refine List.ext_getElem (by simp) fun i hi hi' => ?_
    simp [RunRecord.messages, RunRecord.queuedSteer, RunRecord.own, RunSteer.message, RunSteer.input]

theorem mem_sent {fresh : ℕ → String} {x : RunRecord} (hx : x ∈ (r.steersToSendAgain fresh).1) :
    x.agentId = r.agentId ∧ x.asyncHelper = none ∧ x.mirrored = false := by
  unfold RunRecord.steersToSendAgain at hx
  split_ifs at hx
  · cases hx
  · cases hx
  · obtain ⟨i, hi, rfl⟩ := List.mem_mapIdx.mp hx
    exact ⟨rfl, rfl, rfl⟩

theorem movedOne_sent {fresh : ℕ → String} {f : RunRecord → RunRecord} (hhelper : r.asyncHelper = none)
    (hmessages : ∀ x, (f x).messages = x.messages) (hagent : ∀ x, (f x).agentId = x.agentId)
    (hstays : ∀ x, x.asyncHelper = none → x.mirrored = false → Stays (f x)) (hagent' : r'.agentId = r.agentId)
    (hrest : r'.messages = r.steeredKeys.map SteeredKey.message ++ r.own.toList) (hs : Stays r → Stays r') :
    MovedOne r ((r.steersToSendAgain fresh).1.map f ++ [r']) := by
  have hall : ((r.steersToSendAgain fresh).1.map f ++ [r']).flatMap RunRecord.messages = r.messages := by
    have hsent : ((r.steersToSendAgain fresh).1.map f).flatMap RunRecord.messages =
        r.pendingSteers.map RunSteer.message := by
      have hf : (RunRecord.messages ∘ f) = RunRecord.messages := funext hmessages
      rw [List.flatMap_def, List.map_map, hf, messages_sent hhelper, ← List.flatMap_def, List.map_eq_flatMap]
    rw [List.flatMap_append, hsent, List.flatMap_singleton, hrest, ← List.append_assoc]
    rfl
  refine ⟨?_, ?_, ?_⟩
  · intro x hx
    rcases List.mem_append.mp hx with hx | hx
    · obtain ⟨y, hy, rfl⟩ := List.mem_map.mp hx
      rw [hagent, (mem_sent hy).1]
    · rw [List.mem_singleton.mp hx, hagent']
  · rw [hall]
  · intro h m hm
    rw [← hall] at hm
    obtain ⟨x, hx, hxm⟩ := List.mem_flatMap.mp hm
    refine ⟨x, hx, ?_, hxm⟩
    rcases List.mem_append.mp hx with hx | hx
    · obtain ⟨y, hy, rfl⟩ := List.mem_map.mp hx
      exact hstays y (mem_sent hy).2.1 (mem_sent hy).2.2
    · rw [List.mem_singleton.mp hx]
      exact hs h

theorem messages_steersToSendAgain {fresh : ℕ → String} (hhelper : r.asyncHelper = none) :
    (r.steersToSendAgain fresh).2.messages = r.steeredKeys.map SteeredKey.message ++ r.own.toList := by
  unfold RunRecord.steersToSendAgain
  rw [if_neg (by simp [hhelper])]
  split_ifs with hnil
  · unfold RunRecord.messages
    rw [hnil]
    rfl
  · rfl

theorem movedOne_offered {fresh : ℕ → String} {error : RunError} (hhelper : r.asyncHelper = none) :
    MovedOne r (((r.steersToSendAgain fresh).1.map fun x => x.finish .interrupted (some error) now) ++
      [(r.steersToSendAgain fresh).2]) := by
  refine movedOne_sent hhelper (fun _ => rfl) (fun _ => rfl) (fun _ hx _ => stays_finish hx) ?_
    (messages_steersToSendAgain hhelper) ?_
  · exact of_core RunRecord.agentId (fun _ => rfl) RunRecord.core_steersToSendAgain
  · intro h
    unfold RunRecord.steersToSendAgain
    rw [if_neg (by simp [hhelper])]
    split_ifs
    · exact h
    · exact ⟨hhelper, nofun⟩

theorem messages_recoverAfterRestart : (r.recoverAfterRestart now).messages = r.messages := by
  rcases recoverAfterRestart_spec now (r := r) with ⟨_, heq⟩ | ⟨_, e, heq⟩
  · rw [heq]
  · rw [heq]
    rfl

theorem messages_restarted {fresh : ℕ → String} :
    (r.restarted fresh now).messages = r.steeredKeys.map SteeredKey.message ++ r.own.toList := by
  have hcore : (r.restarted fresh now).core = r.core := RunRecord.core_restarted
  unfold RunRecord.messages
  rw [restarted_rest.1, of_core RunRecord.steeredKeys (fun _ => rfl) hcore, of_core RunRecord.own (fun _ => rfl) hcore]
  rfl

theorem stays_recoverAfterRestart (hhelper : r.asyncHelper = none) (hmirrored : r.mirrored = false) :
    Stays (r.recoverAfterRestart now) := by
  rcases recoverAfterRestart_spec now (r := r) with ⟨_, heq⟩ | ⟨_, e, heq⟩
  · rw [heq]
    refine ⟨hhelper, fun h => ?_⟩
    rw [hmirrored] at h
    cases h
  · rw [heq]
    exact stays_finish hhelper

theorem asyncHelper_none_of_core (hcore : r'.core = r.core) (h : r.asyncHelper = none) : r'.asyncHelper = none := by
  have hsome := isSome_asyncHelper_of_core hcore
  rw [h, Option.isSome_none, Option.isSome_eq_false_iff, Option.isNone_iff_eq_none] at hsome
  exact hsome

theorem reviewAfterRestart_of_none (h : r.asyncHelper = none) : r.reviewAfterRestart = r := by
  unfold RunRecord.reviewAfterRestart
  rw [h]

theorem stays_restarted {fresh : ℕ → String} (h : Stays r) : Stays (r.restarted fresh now) := by
  have hnone : (r.restarted fresh now).asyncHelper = none := by
    rw [restarted_helper, h.1]
    rfl
  refine ⟨hnone, fun hmirrored => ?_⟩
  -- a run that had ended has no copy in the history store, and any other loses it
  cases hterminal : r.status.isTerminal with
  | true =>
    have hold : r.mirrored = false := by
      cases hm : r.mirrored with
      | false => rfl
      | true =>
        have hcontra := h.2 hm
        rw [hterminal] at hcontra
        cases hcontra
    by_cases hsteers : r.pendingSteers = []
    · rw [mirrored_restarted hterminal h.1 hsteers, hold] at hmirrored
      cases hmirrored
    · rw [not_mirrored_restarted hterminal h.1 hsteers] at hmirrored
      cases hmirrored
  | false =>
    have hcore : (RunRecord.steersToSendAgain { r with terminalPublished := false } fresh).2.core = r.core :=
      RunRecord.core_steersToSendAgain (r := { r with terminalPublished := false })
    have hrecovered := asyncHelper_none_of_core
      ((RunRecord.core_recoverAfterRestart now).trans hcore) h.1
    unfold RunRecord.restarted at hmirrored
    rw [reviewAfterRestart_of_none hrecovered] at hmirrored
    rcases recoverAfterRestart_spec now
      (r := (RunRecord.steersToSendAgain { r with terminalPublished := false } fresh).2) with ⟨ht, _⟩ | ⟨_, e, heq⟩
    · rw [(steersToSendAgain_spec fresh).2.1] at ht
      rw [hterminal] at ht
      cases ht
    · rw [heq] at hmirrored
      cases hmirrored

theorem movedOne_restarted {fresh : String → ℕ → String} : MovedOne r (restartOne fresh now r) := by
  have hagent : (r.restarted (fresh r.id) now).agentId = r.agentId := agentId_of_core RunRecord.core_restarted
  cases hhelper : r.asyncHelper with
  | none =>
    have h := @movedOne_sent { r with terminalPublished := false } (r.restarted (fresh r.id) now) (fresh r.id)
      (fun x => x.recoverAfterRestart now) hhelper
      (fun _ => messages_recoverAfterRestart) (fun _ => agentId_of_core (RunRecord.core_recoverAfterRestart _))
      (fun _ => stays_recoverAfterRestart) hagent messages_restarted fun h => stays_restarted h
    exact ⟨h.agent, h.held, h.stays⟩
  | some helper =>
    have hnone : r.sentAgain (fresh r.id) now = [] := by
      unfold RunRecord.sentAgain RunRecord.steersToSendAgain
      rw [if_pos (by simp [hhelper])]
      rfl
    unfold restartOne
    rw [hnone, List.nil_append]
    refine ⟨?_, ?_, ?_⟩
    · intro x hx
      rw [List.mem_singleton.mp hx, hagent]
    · rw [List.flatMap_singleton, messages_restarted]
      unfold RunRecord.messages
      rw [List.append_assoc]
      exact (List.sublist_append_right _ _).subperm
    · intro h
      rw [h.1] at hhelper
      cases hhelper

end AnimaCore.Runs
