import AnimaCore.StandingIntents

/-!
# AnimaCore.StandingIntents.Steps — what one call does

* `RecordValid`: what `record_valid` accepts, field by field.
* `CallStep`: everything one call can do, and `call_step`: every call does one of these.  It asks that the intentions are
  registered under their identifiers (`Keyed`), which the invariant of the registry gives.
-/

namespace AnimaCore.StandingIntents

open Lib

variable {unicode : UnicodeTables} {s s' : StandingIntentRegistry} {c : IntentCall} {reply : IntentReply}

/-! ## Valid records -/

/-- What `record_valid` accepts. -/
structure RecordValid (r : StandingIntent) : Prop where
  id_bounded : boundedId r.id = true
  agent_bounded : boundedId r.agentId = true
  spec_valid : specValid r.spec = true
  revision_pos : 0 < r.revision
  created_le : r.createdAtMs ≤ r.updatedAtMs
  created_lt : r.createdAtMs < r.spec.expiresAtMs
  expires_le : r.spec.expiresAtMs ≤ saturatingAdd r.updatedAtMs maxLifetimeMs
  fires_le : r.fires.length ≤ r.spec.maxFires
  fire_inside : ∀ f ∈ r.fires, boundedId f.runId = true ∧ r.createdAtMs ≤ f.atMs ∧ f.atMs < r.spec.expiresAtMs
  ordered : (r.fires.map (·.atMs)).IsChain (· ≤ ·)
  runs_nodup : (r.fires.map (·.runId)).Nodup

theorem recordValid_iff {r : StandingIntent} : recordValid r = true ↔ RecordValid r := by
  simp only [recordValid, Bool.and_eq_true, decide_eq_true_eq, List.all_eq_true]
  constructor
  · rintro ⟨⟨⟨⟨⟨⟨⟨⟨⟨⟨h1, h2⟩, h3⟩, h4⟩, h5⟩, h6⟩, h7⟩, h8⟩, h9⟩, h10⟩, h11⟩
    exact ⟨h1, h2, h3, h4, h5, h6, h7, h8, fun f hf => ⟨(h9 f hf).1.1, (h9 f hf).1.2, (h9 f hf).2⟩, h10, h11⟩
  · rintro ⟨h1, h2, h3, h4, h5, h6, h7, h8, h9, h10, h11⟩
    exact ⟨⟨⟨⟨⟨⟨⟨⟨⟨⟨h1, h2⟩, h3⟩, h4⟩, h5⟩, h6⟩, h7⟩, h8⟩, fun f hf => ⟨⟨(h9 f hf).1, (h9 f hf).2.1⟩, (h9 f hf).2.2⟩⟩,
      h10⟩, h11⟩

theorem saturatingAdd_mono {a a' : ℕ} (h : a ≤ a') (b : ℕ) : saturatingAdd a b ≤ saturatingAdd a' b := by
  unfold saturatingAdd
  omega

theorem add_le_of_saturatingAdd_le {a b n : ℕ} (h : saturatingAdd a b ≤ n) (hn : n < u64Max) : a + b ≤ n := by
  unfold saturatingAdd at h
  omega

theorem saturatingAdd_le_max (a b : ℕ) : saturatingAdd a b ≤ u64Max := Nat.min_le_right _ _

/-! ## Identifiers -/

theorem mem_uuidText {id : Uuid} {ch : Char} (h : ch ∈ (uuidText id).toList) :
    (isHexDigit ch = true ∧ ch.utf8Size = 1) ∨ ch = '-' := by
  simp only [uuidText, String.toList_ofList, List.mem_append, List.mem_cons] at h
  have hdigits : ch ∈ hexDigits 32 id.toNat → (isHexDigit ch = true ∧ ch.utf8Size = 1) ∨ ch = '-' :=
    fun hd => .inl (mem_hexDigits hd)
  rcases h with (((h | h | h) | h | h) | h | h) | h | h
  · exact hdigits (List.mem_of_mem_take h)
  · exact .inr h
  · exact hdigits (List.mem_of_mem_drop (List.mem_of_mem_take h))
  · exact .inr h
  · exact hdigits (List.mem_of_mem_drop (List.mem_of_mem_take h))
  · exact .inr h
  · exact hdigits (List.mem_of_mem_drop (List.mem_of_mem_take h))
  · exact .inr h
  · exact hdigits (List.mem_of_mem_drop h)

theorem length_uuidText (id : Uuid) : (uuidText id).toList.length = 36 := by
  simp [uuidText, hexDigits]

theorem visible_of_hexDigit {ch : Char} (h : isHexDigit ch = true ∨ ch = '-') :
    isControl ch = false ∧ isWhitespace ch = false := by
  have hrange : 45 ≤ ch.toNat ∧ ch.toNat ≤ 102 := by
    rcases h with h | rfl
    · simp only [isHexDigit, Bool.or_eq_true, Bool.and_eq_true, decide_eq_true_eq, Char.le_def, UInt32.le_iff_toNat_le] at h
      show 45 ≤ ch.val.toNat ∧ ch.val.toNat ≤ 102
      have h0 : ('0' : Char).val.toNat = 48 := rfl
      have h9 : ('9' : Char).val.toNat = 57 := rfl
      have ha : ('a' : Char).val.toNat = 97 := rfl
      have hf : ('f' : Char).val.toNat = 102 := rfl
      omega
    · decide
  obtain ⟨hlo, hhi⟩ := hrange
  constructor
  · simp only [isControl, Bool.or_eq_false_iff, Bool.and_eq_false_iff, decide_eq_false_iff_not]
    omega
  · simp only [isWhitespace, Bool.or_eq_false_iff, Bool.and_eq_false_iff, decide_eq_false_iff_not, beq_eq_false_iff_ne]
    omega

theorem boundedId_uuidText (id : Uuid) : boundedId (uuidText id) = true := by
  have hvisible : ∀ ch ∈ (uuidText id).toList, isControl ch = false ∧ isWhitespace ch = false := by
    intro ch hch
    have hch' : isHexDigit ch = true ∨ ch = '-' := (mem_uuidText hch).imp And.left fun h => h
    exact visible_of_hexDigit hch'
  have hsize : (uuidText id).utf8ByteSize = 36 := by
    rw [← length_uuidText id, ← @utf8Len_eq_length (uuidText id).toList]
    · simp
    · intro ch hch
      rcases mem_uuidText hch with h | rfl
      · exact h.2
      · rfl
  have hfirst : ∃ ch, ch ∈ (uuidText id).toList := by
    refine List.exists_mem_of_length_pos ?_
    rw [length_uuidText]
    decide
  obtain ⟨first, hmem⟩ := hfirst
  simp only [boundedId, trimmedEmpty, Bool.and_eq_true, Bool.not_eq_true', decide_eq_true_eq, hsize]
  refine ⟨⟨?_, by decide⟩, ?_⟩
  · rw [List.all_eq_false]
    exact ⟨first, hmem, by simp [(hvisible first hmem).2]⟩
  · rw [List.any_eq_false]
    intro ch hch
    simp [(hvisible ch hch).1]

/-! ## One call -/

/-- How a change follows from the registry: a new intention, or an edit of a registered one. -/
inductive Follows (s : StandingIntentRegistry) (after : StandingIntent) : Option StandingIntent → Prop
  | created (hroom : s.intents.size < maxIntents) (hnew : s.intents[after.id]? = none) (hrevision : after.revision = 1)
      (hfires : after.fires = []) : Follows s after none
  | edited (before : StandingIntent) (hget : s.intents[before.id]? = some before) (hid : after.id = before.id)
      (hagent : after.agentId = before.agentId) (hfires : after.fires = before.fires)
      (hrevision : after.revision = before.revision + 1) (hupdated : before.updatedAtMs ≤ after.updatedAtMs) :
      Follows s after (some before)

def changeOf (fresh : Uuid) (before : Option StandingIntent) (after : StandingIntent) : IntentChange :=
  { id := uuidText fresh, before, after, undone := false }

/-- A registry with one more change; `kept` are the changes before it. -/
def StandingIntentRegistry.changed (s : StandingIntentRegistry) (kept : Table String IntentChange)
    (change : IntentChange) : StandingIntentRegistry :=
  { s with intents := s.intents.insert change.after.id change.after, changes := kept.insert change.id change }

/-- A registry after a change is undone; `intents` are the intentions after it. -/
def StandingIntentRegistry.undone (s : StandingIntentRegistry) (id : String) (intents : Table String StandingIntent) :
    StandingIntentRegistry :=
  { s with intents, changes := s.changes.modify id fun c => { c with undone := true } }

/-- The admission of a turn on which `ids` fire. -/
def admissionOf (turn : OwnerTurn) (ids : List String) : IntentAdmission :=
  { agentId := turn.agentId, runId := turn.runId, retryKey := turn.retryKey, intentIds := ids }

inductive CallStep (unicode : UnicodeTables) (s : StandingIntentRegistry) :
    IntentCall → IntentReply → StandingIntentRegistry → Prop
  | failed (c : IntentCall) (e : IntentError) (hne : e ≠ .historyFull) : CallStep unicode s c (.failed e) s
  | full (c : IntentCall) (hfull : maxChanges ≤ s.reclaim.changes.size) :
      CallStep unicode s c (.failed .historyFull) s.reclaim
  | changed (c : IntentCall) (fresh : Uuid) (before : Option StandingIntent) (after : StandingIntent)
      (kept : Table String IntentChange) (hvalid : RecordValid after) (hfollows : Follows s after before)
      (hkept : kept = s.changes ∨ kept = s.reclaim.changes) (hroom : kept.size < maxChanges) :
      CallStep unicode s c (.changed after (changeOf fresh before after)) (s.changed kept (changeOf fresh before after))
  | restored (id : String) (now : ℕ) (change : IntentChange) (before : StandingIntent)
      (hget : s.changes[id]? = some change) (hopen : change.undone = false) (hbefore : change.before = some before)
      (hcurrent : s.intents[change.after.id]? = some change.after) (restored : StandingIntent)
      (heq : restored = { before with revision := change.after.revision + 1
                                      updatedAtMs := max now change.after.updatedAtMs }) :
      CallStep unicode s (.undo id now) (.restored (some restored)) (s.undone id (s.intents.insert restored.id restored))
  | removed (id : String) (now : ℕ) (change : IntentChange) (hget : s.changes[id]? = some change)
      (hopen : change.undone = false) (hbefore : change.before = none)
      (hcurrent : s.intents[change.after.id]? = some change.after) :
      CallStep unicode s (.undo id now) (.restored none) (s.undone id (s.intents.erase change.after.id))
  | quiet (turn : OwnerTurn) : CallStep unicode s (.turn turn) (.matched []) s
  | fired (turn : OwnerTurn) (ids : List String) (found : List IntentMatch) (intents : Table String StandingIntent)
      (hagent : boundedId turn.agentId = true) (hrun : boundedId turn.runId = true)
      (hkey : turn.retryKey.all boundedId = true) (hnew : s.admittedBefore turn = false)
      (hroom : s.admissions.length < maxAdmissions) (hne : ids ≠ []) (hlen : ids.length ≤ 3) (hnodup : ids.Nodup)
      (hfires : ∀ id ∈ ids, ∃ r, s.intents[id]? = some r ∧ r.firesOn unicode turn = true)
      (hfound : found.map (·.intentId) = ids)
      (hintents : ∀ id : String, intents[id]? =
        if id ∈ ids then s.intents[id]?.map fun r => r.fire turn else s.intents[id]?) :
      CallStep unicode s (.turn turn) (.matched found)
        { s with intents, admissions := s.admissions ++ [admissionOf turn ids] }

/-- Every intention is registered under its identifier. -/
def Keyed (s : StandingIntentRegistry) : Prop := ∀ (id : String) r, s.intents[id]? = some r → r.id = id

theorem commitChange_step (c : IntentCall) (fresh : Uuid) {before : Option StandingIntent} {after : StandingIntent}
    (hfollows : Follows s after before) :
    CallStep unicode s c (StandingIntentRegistry.changeReply (s.commitChange fresh before after).1)
      (s.commitChange fresh before after).2 := by
  unfold StandingIntentRegistry.commitChange
  by_cases hvalid : recordValid after = false
  · rw [if_pos hvalid]
    exact .failed c _ (by decide)
  rw [if_neg hvalid]
  have hvalid' : RecordValid after := recordValid_iff.mp (Bool.not_eq_false _ ▸ hvalid)
  by_cases hmax : maxChanges ≤ s.changes.size
  · simp only [if_pos hmax]
    by_cases hfull : maxChanges ≤ s.reclaim.changes.size
    · rw [if_pos hfull]
      exact .full c hfull
    · rw [if_neg hfull]
      exact .changed c fresh before after s.reclaim.changes hvalid' hfollows (.inr rfl) (Nat.lt_of_not_le hfull)
  · simp only [if_neg hmax]
    exact .changed c fresh before after s.changes hvalid' hfollows (.inl rfl) (Nat.lt_of_not_le hmax)

theorem current_eq_some {id : String} {revision : ℕ} {r : StandingIntent} (h : s.current id revision = some r) :
    s.intents[id]? = some r ∧ r.revision = revision ∧ r.cancelled = false := by
  simp only [StandingIntentRegistry.current, Option.filter_eq_some_iff, Bool.and_eq_true, beq_iff_eq,
    Bool.not_eq_true'] at h
  exact ⟨h.1, h.2.1, h.2.2⟩

theorem create_step (fresh : Uuid) (id agent : String) (spec : IntentSpec) (now : ℕ) :
    CallStep unicode s (.create fresh id agent spec now)
      (StandingIntentRegistry.changeReply (s.create fresh id agent spec now).1) (s.create fresh id agent spec now).2 := by
  unfold StandingIntentRegistry.create
  split_ifs with hbad
  · exact .failed _ _ (by decide)
  · rw [not_or, not_or] at hbad
    obtain ⟨hroom, hnew, _⟩ := hbad
    exact commitChange_step _ fresh
      (.created (Nat.lt_of_not_le hroom) (Table.not_mem_iff_getElem?_eq_none.mp hnew) rfl rfl)

theorem update_step (hkeyed : Keyed s) (fresh : Uuid) (id : String) (revision : ℕ) (spec : IntentSpec) (now : ℕ) :
    CallStep unicode s (.update fresh id revision spec now)
      (StandingIntentRegistry.changeReply (s.update fresh id revision spec now).1)
      (s.update fresh id revision spec now).2 := by
  unfold StandingIntentRegistry.update
  cases hcurrent : s.current id revision with
  | none => exact .failed _ _ (by decide)
  | some before =>
    obtain ⟨hget, _, _⟩ := current_eq_some hcurrent
    simp only
    split_ifs with hbad
    · exact .failed _ _ (by decide)
    · cases hadd : checkedAdd 64 before.revision 1 with
      | none => exact .failed _ _ (by decide)
      | some next =>
        obtain ⟨_, rfl⟩ := checkedAdd_eq_some.mp hadd
        have hid := hkeyed id before hget
        exact commitChange_step _ fresh
          (.edited before (hid ▸ hget) rfl rfl rfl rfl (Nat.le_max_right _ _))

theorem cancel_step (hkeyed : Keyed s) (fresh : Uuid) (id : String) (revision now : ℕ) :
    CallStep unicode s (.cancel fresh id revision now)
      (StandingIntentRegistry.changeReply (s.cancel fresh id revision now).1) (s.cancel fresh id revision now).2 := by
  unfold StandingIntentRegistry.cancel
  cases hcurrent : s.current id revision with
  | none => exact .failed _ _ (by decide)
  | some before =>
    obtain ⟨hget, _, _⟩ := current_eq_some hcurrent
    simp only
    cases hadd : checkedAdd 64 before.revision 1 with
    | none => exact .failed _ _ (by decide)
    | some next =>
      obtain ⟨_, rfl⟩ := checkedAdd_eq_some.mp hadd
      have hid := hkeyed id before hget
      exact commitChange_step _ fresh (.edited before (hid ▸ hget) rfl rfl rfl rfl (Nat.le_max_right _ _))

theorem undo_step (id : String) (now : ℕ) :
    CallStep unicode s (.undo id now) (StandingIntentRegistry.undoReply (s.undo id now).1) (s.undo id now).2 := by
  unfold StandingIntentRegistry.undo
  cases hopen : s.changes[id]?.filter fun c => !c.undone with
  | none => exact .failed _ _ (by decide)
  | some change =>
    rw [Option.filter_eq_some_iff, Bool.not_eq_true'] at hopen
    obtain ⟨hget, hopen⟩ := hopen
    simp only
    by_cases hcurrent : s.intents[change.after.id]? = some change.after
    · rw [if_neg (not_not.mpr hcurrent)]
      cases hbefore : change.before with
      | none => exact .removed id now change hget hopen hbefore hcurrent
      | some before =>
        cases hadd : checkedAdd 64 change.after.revision 1 with
        | none => exact .failed _ _ (by decide)
        | some next =>
          obtain ⟨_, rfl⟩ := checkedAdd_eq_some.mp hadd
          exact .restored id now change before hget hopen hbefore hcurrent _ rfl
    · rw [if_pos hcurrent]
      exact .failed _ _ (by decide)

/-! ### A turn -/

theorem foldl_fireRow (turn : OwnerTurn) (ids : List String) (t : Table String StandingIntent)
    (found : List IntentMatch) (hnodup : ids.Nodup) (hmem : ∀ id ∈ ids, id ∈ t) :
    (∀ a : String, (ids.foldl (StandingIntentRegistry.fireRow turn) (t, found)).1[a]? =
        if a ∈ ids then t[a]?.map fun r => r.fire turn else t[a]?) ∧
      (ids.foldl (StandingIntentRegistry.fireRow turn) (t, found)).2.map (·.intentId) =
        found.map (·.intentId) ++ ids := by
  induction ids generalizing t found with
  | nil => simp
  | cons id ids ih =>
    obtain ⟨hid, hnodup⟩ := List.nodup_cons.mp hnodup
    obtain ⟨r, hr⟩ := Option.isSome_iff_exists.mp (Table.mem_iff_getElem?_isSome.mp (hmem id List.mem_cons_self))
    have hrow : StandingIntentRegistry.fireRow turn (t, found) id =
        (t.insert id (r.fire turn), found ++ [{ intentId := id, instruction := r.spec.instruction }]) := by
      simp only [StandingIntentRegistry.fireRow, hr]
    have hrest : ∀ a ∈ ids, a ∈ t.insert id (r.fire turn) := by
      intro a ha
      exact Std.ExtTreeMap.mem_insert.mpr (.inr (hmem a (List.mem_cons_of_mem _ ha)))
    obtain ⟨hget, hfound⟩ := ih (t.insert id (r.fire turn)) _ hnodup hrest
    rw [List.foldl_cons, hrow]
    constructor
    · intro a
      rw [hget, Table.getElem?_insert_eq]
      by_cases ha : id = a
      · subst ha
        simp [hid, hr]
      · simp [ha, Ne.symm ha]
    · rw [hfound]
      simp

variable (unicode) in
theorem mem_rows (hkeyed : Keyed s) (turn : OwnerTurn) (id : String)
    (h : id ∈ (s.rows unicode turn).map Prod.snd) :
    ∃ r, s.intents[id]? = some r ∧ r.firesOn unicode turn = true := by
  obtain ⟨row, hrow, rfl⟩ := List.mem_map.mp h
  have hmem := List.mem_mergeSort.mp (List.mem_of_mem_take hrow)
  obtain ⟨r, hr, rfl⟩ := List.mem_map.mp hmem
  obtain ⟨hr, hfires⟩ := List.mem_filter.mp hr
  obtain ⟨⟨key, r⟩, hentry, rfl⟩ := List.mem_map.mp hr
  have hget := Table.mem_toList.mp hentry
  refine ⟨r, ?_, hfires⟩
  rw [← hkeyed key r hget] at hget
  exact hget

variable (unicode) in
theorem rows_nodup (hkeyed : Keyed s) (turn : OwnerTurn) : ((s.rows unicode turn).map Prod.snd).Nodup := by
  have hids : ((s.intents.toList.map Prod.snd).map (·.id)).Nodup := by
    have hkeys : (s.intents.toList.map Prod.snd).map (·.id) = s.intents.toList.map Prod.fst := by
      rw [List.map_map]
      refine List.map_congr_left ?_
      rintro ⟨key, r⟩ hentry
      exact hkeyed key r (Table.mem_toList.mp hentry)
    rw [hkeys]
    exact Table.nodup_toList_fst _
  have hfiltered : (((s.intents.toList.map Prod.snd).filter fun r => r.firesOn unicode turn).map (·.id)).Nodup :=
    hids.sublist (List.filter_sublist.map _)
  unfold StandingIntentRegistry.rows
  refine List.Nodup.sublist ((List.take_sublist 3 _).map Prod.snd) ?_
  refine ((List.mergeSort_perm _ _).map Prod.snd).nodup_iff.mpr ?_
  rw [List.map_map]
  exact hfiltered

theorem admitTurn_step (hkeyed : Keyed s) (turn : OwnerTurn) :
    CallStep unicode s (.turn turn) (StandingIntentRegistry.turnReply (s.admitTurn unicode turn).1)
      (s.admitTurn unicode turn).2 := by
  have hlen : ((s.rows unicode turn).map Prod.snd).length ≤ 3 := by
    rw [List.length_map]
    exact List.length_take_le 3 _
  have hnodup := rows_nodup unicode hkeyed turn
  have hfires := fun id => mem_rows unicode hkeyed turn id
  unfold StandingIntentRegistry.admitTurn
  simp only
  generalize (s.rows unicode turn).map Prod.snd = ids at hlen hnodup hfires
  split_ifs with hbad hquiet hnone hfull hexhausted
  · exact .failed _ _ (by decide)
  · exact .quiet turn
  · exact .quiet turn
  · exact .failed _ _ (by decide)
  · exact .failed _ _ (by decide)
  · have hmem : ∀ id ∈ ids, id ∈ s.intents := by
      intro id hid
      obtain ⟨r, hr, _⟩ := hfires id hid
      exact Table.mem_of_getElem? hr
    obtain ⟨hget, hfound⟩ := foldl_fireRow turn ids s.intents [] hnodup hmem
    rw [not_or, not_or, not_or] at hbad
    rw [not_or] at hquiet
    simp only [List.map_nil, List.nil_append] at hfound
    simp only [StandingIntentRegistry.turnReply, hfound]
    exact .fired turn ids _ _ (Bool.not_eq_false _ ▸ hbad.1) (Bool.not_eq_false _ ▸ hbad.2.1)
      (Bool.not_eq_false _ ▸ hbad.2.2.2) (Bool.not_eq_true _ ▸ hquiet.2) (Nat.lt_of_not_le hfull) hnone hlen hnodup
      hfires hfound hget

variable (unicode) in
theorem call_step (hkeyed : Keyed s) (c : IntentCall) :
    CallStep unicode s c (s.call unicode c).1 (s.call unicode c).2 := by
  cases c with
  | create fresh id agent spec now => exact create_step fresh id agent spec now
  | update fresh id revision spec now => exact update_step hkeyed fresh id revision spec now
  | cancel fresh id revision now => exact cancel_step hkeyed fresh id revision now
  | undo id now => exact undo_step id now
  | turn turn => exact admitTurn_step hkeyed turn

end AnimaCore.StandingIntents
