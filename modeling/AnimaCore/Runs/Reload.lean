import AnimaCore.Runs.Restart

/-!
# AnimaCore.Runs.Reload — whether a restored ledger can be loaded again

The saved records that are accepted, and those that a restart makes of them.

* `FreshIds`: the identifiers of the runs that a restart creates are new.
* `restartList`: the records of a restart before the retention.
-/

namespace AnimaCore.Runs

open Lib

variable {host : Host} {records : List RunRecord} {r : RunRecord} {now : ℕ} {fresh : String → ℕ → String}
  {live pins : List String}

/-! ## The records of a restart -/

/-- The runs that the checks of a record look up, and its own. -/
def RunRecord.named (r : RunRecord) : List String :=
  r.id :: r.recoveryOf.toList ++ r.recovery.toList.map (·.continuationRunId) ++
    r.asyncHelper.toList.map (·.parentRunId) ++ r.reservation.toList ++ r.helperCompletion.toList.map (·.helperRunId)

/-- New identifiers: `run_` and a new UUID each. -/
structure FreshIds (fresh : String → ℕ → String) (records : List RunRecord) : Prop where
  distinct : ∀ a i b j, fresh a i = fresh b j → a = b ∧ i = j
  unused : ∀ a i, ∀ r ∈ records, fresh a i ∉ r.named
  nonblank : ∀ a i, trimmedEmpty (fresh a i) = false

def restartOne (fresh : String → ℕ → String) (now : ℕ) (r : RunRecord) : List RunRecord :=
  r.sentAgain (fresh r.id) now ++ [r.restarted (fresh r.id) now]

/-- The records of a restart, before the retention. -/
def restartList (fresh : String → ℕ → String) (records : List RunRecord) (now : ℕ) : List RunRecord :=
  records.flatMap (restartOne fresh now)

theorem mem_restartOne {x : RunRecord} :
    x ∈ restartOne fresh now r ↔ x ∈ r.sentAgain (fresh r.id) now ∨ x = r.restarted (fresh r.id) now := by
  rw [restartOne, List.mem_append, List.mem_singleton]

theorem mem_restartList {x : RunRecord} :
    x ∈ restartList fresh records now ↔
      ∃ r ∈ records, x ∈ r.sentAgain (fresh r.id) now ∨ x = r.restarted (fresh r.id) now := by
  rw [restartList, List.mem_flatMap]
  exact exists_congr fun r => and_congr_right fun _ => mem_restartOne

theorem atRest_restartList {x : RunRecord} (h : x ∈ restartList fresh records now) : AtRest x := by
  obtain ⟨r, _, hx | rfl⟩ := mem_restartList.mp h
  · exact atRest_sentAgain hx
  · exact atRest_restarted

theorem id_restarted {f : ℕ → String} : (r.restarted f now).id = r.id := id_of_core RunRecord.core_restarted

theorem ids_sentAgain {f : ℕ → String} :
    (r.sentAgain f now).map (·.id) = (List.range (r.sentAgain f now).length).map f := by
  unfold RunRecord.sentAgain RunRecord.steersToSendAgain
  split_ifs
  · rfl
  · rfl
  · simp only [List.map_map, List.length_map, List.mapIdx_eq_zipIdx_map]
    refine List.ext_getElem (by simp) fun i hi hi' => ?_
    simp [RunRecord.recoverAfterRestart, RunRecord.queuedSteer, RunRecord.finish, RunRecord.sealTurnTerminal]

theorem not_fresh_of_mem (hf : FreshIds fresh records) (hr : r ∈ records) (a : String) (i : ℕ) : fresh a i ≠ r.id := by
  intro heq
  have hun := hf.unused a i r hr
  rw [heq] at hun
  exact hun (by simp [RunRecord.named])

variable (now) in
theorem nodup_restartList (hdistinct : ∀ a i b j, fresh a i = fresh b j → a = b ∧ i = j)
    (hunused : ∀ a i, ∀ r ∈ records, fresh a i ≠ r.id) (hn : (records.map (·.id)).Nodup) :
    ((restartList fresh records now).map (·.id)).Nodup := by
  have hone : ∀ r, (restartOne fresh now r).map (·.id) =
      (List.range (r.sentAgain (fresh r.id) now).length).map (fresh r.id) ++ [r.id] := by
    intro r
    rw [restartOne, List.map_append, ids_sentAgain, List.map_singleton, id_restarted]
  rw [restartList, List.map_flatMap, List.nodup_flatMap]
  constructor
  · intro r hr
    rw [hone, List.nodup_append]
    refine ⟨List.nodup_range.map fun i j h => (hdistinct _ _ _ _ h).2, List.nodup_singleton _, ?_⟩
    intro x hx y hy
    obtain ⟨i, _, rfl⟩ := List.mem_map.mp hx
    rw [List.mem_singleton.mp hy]
    exact hunused _ _ r hr
  · have hpair : records.Pairwise fun a b => a.id ≠ b.id := by
      rw [List.nodup_iff_pairwise_ne, List.pairwise_map] at hn
      exact hn
    refine hpair.imp_of_mem fun {a b} ha hb hne => ?_
    show List.Disjoint ((restartOne fresh now a).map (·.id)) ((restartOne fresh now b).map (·.id))
    intro x hx hx'
    simp only [hone, List.mem_append, List.mem_map, List.mem_singleton] at hx hx'
    rcases hx with ⟨i, _, rfl⟩ | rfl
    · rcases hx' with ⟨j, _, heq⟩ | heq
      · exact hne (hdistinct _ _ _ _ heq).1.symm
      · exact hunused _ _ b hb heq
    · rcases hx' with ⟨j, _, heq⟩ | heq
      · exact hunused _ _ a ha heq
      · exact hne heq

variable (now) in
theorem ids_restartList (hf : FreshIds fresh records) (hn : (records.map (·.id)).Nodup) :
    ((restartList fresh records now).map (·.id)).Nodup :=
  nodup_restartList _ hf.distinct (fun _ _ _ hr => not_fresh_of_mem hf hr _ _) hn

theorem byId_restartList (hf : FreshIds fresh records) (hn : (records.map (·.id)).Nodup) {id : String}
    (hid : ∀ a i, fresh a i ≠ id) :
    byId (restartList fresh records now) id = (byId records id).map fun r => r.restarted (fresh r.id) now := by
  cases h : byId records id with
  | none =>
    rw [byId_eq_none] at h
    rw [Option.map_none, byId_eq_none]
    intro x hx
    obtain ⟨r, hr, hsent | rfl⟩ := mem_restartList.mp hx
    · obtain ⟨_, _, i, steer, rfl⟩ := mem_sentAgain hsent
      exact hid _ _
    · rw [id_restarted]
      exact h r hr
  | some r =>
    obtain ⟨hr, rfl⟩ := mem_of_byId h
    rw [Option.map_some, byId_eq_some (ids_restartList _ hf hn)]
    exact ⟨mem_restartList.mpr ⟨r, hr, .inr rfl⟩, id_restarted⟩

theorem parentOf_restartList (hn : (records.map (·.id)).Nodup) (id : String) :
    parentOf (restartList fresh records now) id = parentOf records id ∨
      parentOf (restartList fresh records now) id = none := by
  unfold parentOf
  cases h : byId (restartList fresh records now) id with
  | none => exact .inr rfl
  | some x =>
    obtain ⟨hx, rfl⟩ := mem_of_byId h
    obtain ⟨r, hr, hsent | rfl⟩ := mem_restartList.mp hx
    · obtain ⟨_, _, i, steer, rfl⟩ := mem_sentAgain hsent
      exact .inr rfl
    · rw [id_restarted, (byId_eq_some hn).mpr ⟨hr, rfl⟩]
      exact .inl (parentRunId_of_core RunRecord.core_restarted)

/-! ## The checks of one record -/

theorem turnSealed_restarted {turn turn' : RunTurn} {f : ℕ → String} (hturn : r.turn = some turn)
    (hturn' : (r.restarted f now).turn = some turn') (h : turnSealed r turn = .ok ()) :
    turnSealed (r.restarted f now) turn' = .ok () := by
  have hreply : (r.restarted f now).replyMessageId = r.replyMessageId :=
    of_core RunRecord.replyMessageId (fun _ => rfl) RunRecord.core_restarted
  rcases restarted_outcome now f (r := r) with ⟨_, hs, ht, hsha⟩ | ⟨_, hs, ht, hsha⟩
  · rw [ht, hturn] at hturn'
    cases hturn'
    unfold turnSealed at *
    rw [hs, hreply, hsha]
    exact h
  · rw [ht, hturn, Option.map_some] at hturn'
    cases hturn'
    unfold turnSealed
    simp only [bind_eq_ok, ensure_eq_ok, hs, hreply, hsha, interruptedTerminal]
    refine ⟨(), ?_, ?_⟩
    · simp [RunStatus.isTerminal]
    · simp

theorem turnValidate_restarted {f : ℕ → String} (h : turnValidate host r = .ok ()) :
    turnValidate host (r.restarted f now) = .ok () := by
  have hcore : (r.restarted f now).core = r.core := RunRecord.core_restarted
  cases hturn' : (r.restarted f now).turn with
  | none =>
    unfold turnValidate
    rw [hturn']
    rfl
  | some turn' =>
    obtain ⟨turn, hturn, hb, hi, hc⟩ := turn_of_core hcore hturn'
    unfold turnValidate at *
    rw [hturn] at h
    rw [hturn']
    simp only [bind_eq_ok] at h ⊢
    obtain ⟨_, hbound, hsealed⟩ := h
    exact ⟨(), turnBound_of_core hcore hb hi hc hbound, turnSealed_restarted hturn hturn' hsealed⟩

theorem not_fresh_of_named (hf : FreshIds fresh records) (hr : r ∈ records) {id : String} (h : id ∈ r.named) (a : String)
    (i : ℕ) : fresh a i ≠ id := by
  rintro rfl
  exact hf.unused a i r hr h

theorem continuationValidate_restarted (hf : FreshIds fresh records) (hn : (records.map (·.id)).Nodup) (hr : r ∈ records)
    (h : continuationValidate host records r = .ok ()) :
    continuationValidate host (restartList fresh records now) (r.restarted (fresh r.id) now) = .ok () := by
  have hcore : (r.restarted (fresh r.id) now).core = r.core := RunRecord.core_restarted
  have hof : (r.restarted (fresh r.id) now).recoveryOf = r.recoveryOf :=
    of_core RunRecord.recoveryOf (fun _ => rfl) hcore
  unfold continuationValidate at *
  cases hturn' : (r.restarted (fresh r.id) now).turn with
  | none => rfl
  | some turn' =>
    obtain ⟨turn, hturn, hb, _, _⟩ := turn_of_core hcore hturn'
    rw [hof]
    rw [hturn] at h
    cases hparentId : r.recoveryOf with
    | none => rfl
    | some parentId =>
      have hold : ∀ a i, fresh a i ≠ parentId := not_fresh_of_named hf hr (by simp [RunRecord.named, hparentId])
      rw [hparentId] at h
      simp only [byId_restartList hf hn hold] at h ⊢
      cases hparent : byId records parentId with
      | none => rfl
      | some parent =>
        simp only [hparent, Option.map_some] at h ⊢
        exact continues_of_core hcore hb RunRecord.core_restarted h

theorem recoveryValidate_restarted (hf : FreshIds fresh records) (hn : (records.map (·.id)).Nodup) (hr : r ∈ records)
    (h : recoveryValidate records r = .ok ()) :
    recoveryValidate (restartList fresh records now) (r.restarted (fresh r.id) now) = .ok () := by
  have hcore : (r.restarted (fresh r.id) now).core = r.core := RunRecord.core_restarted
  unfold recoveryValidate at *
  rw [of_core RunRecord.recovery (fun _ => rfl) hcore]
  cases hrec : r.recovery with
  | none => rfl
  | some recovery =>
    have hold : ∀ a i, fresh a i ≠ recovery.continuationRunId :=
      not_fresh_of_named hf hr (by simp [RunRecord.named, hrec])
    simp only [hrec, ensure_eq_ok] at h ⊢
    rw [id_restarted, of_core RunRecord.recoveryAttempt (fun _ => rfl) hcore, byId_restartList hf hn hold]
    obtain ⟨h1, h2, h3, h4, h5, hchild⟩ := h
    refine ⟨h1, h2, h3, h4, h5, ?_⟩
    rintro child' hchild'
    obtain ⟨child, hfound, rfl⟩ := Option.map_eq_some_iff.mp hchild'
    exact isContinuation_of_core hcore RunRecord.core_restarted (hchild child hfound)

theorem recordAccepted_restarted (hf : FreshIds fresh records) (hn : (records.map (·.id)).Nodup) (hr : r ∈ records)
    (h : RecordAccepted host records r) :
    RecordAccepted host (restartList fresh records now) (r.restarted (fresh r.id) now) := by
  have hcore : (r.restarted (fresh r.id) now).core = r.core := RunRecord.core_restarted
  refine
    { turn_ok := turnValidate_restarted h.turn_ok
      edit_ok := editValidate_of_core hcore h.edit_ok
      continuation_ok := continuationValidate_restarted hf hn hr h.continuation_ok
      receipts_ok := ?_
      lineage := ?_
      recovery_ok := recoveryValidate_restarted hf hn hr h.recovery_ok
      id_ne := ?_
      owner_ne := ?_
      reply_ok := ?_ }
  · rw [of_core RunRecord.actionReceipts (fun _ => rfl) hcore]
    exact h.receipts_ok
  · rw [of_core RunRecord.recoveryAttempt (fun _ => rfl) hcore, of_core RunRecord.recoveryOf (fun _ => rfl) hcore,
      id_of_core hcore]
    exact h.lineage
  · rw [id_of_core hcore]
    exact h.id_ne
  · rw [agentId_of_core hcore, sessionId_of_core hcore]
    exact h.owner_ne
  · rcases restarted_outcome now (fresh r.id) (r := r) with ⟨_, hs, _, hsha⟩ | ⟨_, _, _, hsha⟩
    · rw [hs, hsha, of_core RunRecord.replyMessageId (fun _ => rfl) hcore]
      exact h.reply_ok
    · rw [hsha]
      rintro _ ⟨⟩

theorem recordAccepted_sentAgain {records' : List RunRecord} {x : RunRecord} {f : ℕ → String}
    (hf : ∀ i, trimmedEmpty (f i) = false) (h : RecordAccepted host records r) (hx : x ∈ r.sentAgain f now) :
    RecordAccepted host records' x := by
  obtain ⟨_, _, i, steer, rfl⟩ := mem_sentAgain hx
  refine
    { turn_ok := rfl, edit_ok := rfl, continuation_ok := rfl, receipts_ok := rfl, lineage := ?_, recovery_ok := rfl
      id_ne := hf i, owner_ne := h.owner_ne, reply_ok := ?_ }
  · exact ⟨Nat.zero_le _, ⟨fun _ => rfl, fun _ => rfl⟩, nofun⟩
  · rintro _ ⟨⟩

/-! ## The checks of a helper -/

def AsyncHelper.restarted (h : AsyncHelper) (r : RunRecord) : AsyncHelper :=
  { h.recovered r.status with unconsumedSteers := sortSteers (archived r h) }

theorem restarted_helper_eq {helper' : AsyncHelper} {f : ℕ → String} (h : (r.restarted f now).asyncHelper = some helper') :
    ∃ helper, r.asyncHelper = some helper ∧ helper' = helper.restarted r := by
  rw [restarted_helper] at h
  obtain ⟨helper, hhelper, heq⟩ := Option.map_eq_some_iff.mp h
  exact ⟨helper, hhelper, heq.symm⟩

theorem runId_restarted (helper : AsyncHelper) : (helper.restarted r).completion.runId = helper.completion.runId := by
  unfold AsyncHelper.restarted AsyncHelper.recovered
  simp only [HelperCompletionState.runId_requireReview]
  split_ifs
  · rfl
  · exact HelperCompletionState.runId_requireReview _ _

theorem sortSteers_perm (steers : List RunSteer) : (sortSteers steers).Perm steers := List.mergeSort_perm _ _

section Helper

variable {helper : AsyncHelper}

theorem archived_eq (hkeys : (steerKeys r helper).Nodup) : archived r helper = helper.unconsumedSteers ++ r.pendingSteers := by
  unfold steerKeys at hkeys
  exact foldl_archiveSteer_distinct _ _ _ (List.nodup_append.mp hkeys).1

variable (now) in
theorem steerKeys_restarted {f : ℕ → String} (hkeys : (steerKeys r helper).Nodup) :
    (steerKeys (r.restarted f now) (helper.restarted r)).Perm (steerKeys r helper) := by
  unfold steerKeys
  rw [of_core RunRecord.steeredKeys (fun _ => rfl) RunRecord.core_restarted, restarted_rest.1, List.append_nil]
  refine List.Perm.append_right _ (List.Perm.map _ ?_)
  rw [← archived_eq hkeys]
  exact sortSteers_perm _

theorem validSteers_sortSteers {a b : List RunSteer} (ha : validSteers a = true) (hb : validSteers b = true)
    (hlength : a.length + b.length ≤ 8) (hn : ((a ++ b).map (·.idempotencyKey)).Nodup) :
    validSteers (sortSteers (a ++ b)) = true := by
  have hperm := sortSteers_perm (a ++ b)
  unfold validSteers at *
  simp only [Bool.and_eq_true, decide_eq_true_eq, List.all_eq_true] at *
  refine ⟨⟨?_, ?_⟩, (hperm.map _).nodup_iff.mpr hn⟩
  · rw [hperm.length_eq, List.length_append]
    exact hlength
  · intro steer hsteer
    rcases List.mem_append.mp (hperm.mem_iff.mp hsteer) with h | h
    · exact ha.1.2 steer h
    · exact hb.1.2 steer h

theorem helperSteers_restarted {f : ℕ → String} (hkeys : (steerKeys r helper).Nodup) (h : helperSteers r helper = true) :
    helperSteers (r.restarted f now) (helper.restarted r) = true := by
  unfold helperSteers at *
  rw [restarted_rest.1, of_core RunRecord.steeredKeys (fun _ => rfl) RunRecord.core_restarted]
  simp only [Bool.and_eq_true, decide_eq_true_eq] at h ⊢
  obtain ⟨⟨hun, hpending⟩, hle⟩ := h
  have hnew : (helper.restarted r).unconsumedSteers = sortSteers (helper.unconsumedSteers ++ r.pendingSteers) := by
    rw [← archived_eq hkeys]
    rfl
  rw [hnew]
  refine ⟨⟨validSteers_sortSteers hun hpending (by omega) (List.nodup_append.mp hkeys).1, by decide⟩, ?_⟩
  rw [(sortSteers_perm _).length_eq, List.length_append, List.length_nil]
  omega

theorem completionStateOk_review {reason : String} {id : Option String} (h : reason = notCommitted ∨ reason = notReplayed) :
    completionStateOk r (.reviewRequired reason id) = true := by
  rcases h with rfl | rfl
  · show (!trimmedEmpty notCommitted && decide (notCommitted.utf8ByteSize ≤ 1024)) = true
    decide
  · show (!trimmedEmpty notReplayed && decide (notReplayed.utf8ByteSize ≤ 1024)) = true
    decide

theorem completionStateOk_requireReview {c : HelperCompletionState} {reason : String}
    (hreason : reason = notCommitted ∨ reason = notReplayed) (h : c.isUnresolved = false → completionStateOk r c = true) :
    completionStateOk r (c.requireReview reason) = true := by
  unfold HelperCompletionState.requireReview
  split_ifs with hu
  · exact completionStateOk_review hreason
  · exact h (by simpa using hu)

theorem completionStateOk_restarted {f : ℕ → String} (h : completionStateOk r helper.completion = true) :
    completionStateOk (r.restarted f now) (helper.restarted r).completion = true := by
  have hreply : (r.restarted f now).replyMessageId = r.replyMessageId :=
    of_core RunRecord.replyMessageId (fun _ => rfl) RunRecord.core_restarted
  unfold AsyncHelper.restarted AsyncHelper.recovered
  refine completionStateOk_requireReview (.inr rfl) ?_
  rcases restarted_outcome now f (r := r) with ⟨ht, hs, _, _⟩ | ⟨ht, hs, _, _⟩
  · intro _
    rw [if_pos ht]
    cases hc : helper.completion <;> simp_all [completionStateOk]
  · intro _
    rw [if_neg (by simp [ht])]
    refine completionStateOk_requireReview (.inl rfl) fun hu => ?_
    -- a run that had not ended cannot have settled its completion
    cases hc : helper.completion with
    | settled id =>
      simp only [hc, completionStateOk, Bool.and_eq_true, beq_iff_eq] at h
      rw [h.1] at ht
      cases ht
    | awaitingResult id => simp [hc, HelperCompletionState.isUnresolved] at hu
    | awaitingParent id => simp [hc, HelperCompletionState.isUnresolved] at hu
    | queued id => simp [hc, HelperCompletionState.isUnresolved] at hu
    | manual => rfl
    | reviewRequired reason id => simpa only [hc, completionStateOk] using h
    | suppressed reason id => simpa only [hc, completionStateOk] using h

theorem helperIdentity_restarted {f : ℕ → String} (h : helperIdentity host r helper = true) :
    helperIdentity host (r.restarted f now) (helper.restarted r) = true := by
  have hcore : (r.restarted f now).core = r.core := RunRecord.core_restarted
  unfold helperIdentity at *
  rw [helperCompletion_of_core hcore, of_core RunRecord.source (fun _ => rfl) hcore, parentRunId_of_core hcore,
    agentId_of_core hcore, id_of_core hcore]
  exact h

theorem resolved_restarted : (helper.restarted r).completion.isUnresolved = false := recovered_resolved _ _

theorem launchParentOk_restarted (hf : FreshIds fresh records) (hn : (records.map (·.id)).Nodup) (hr : r ∈ records)
    (hhelper : r.asyncHelper = some helper) (h : launchParentOk records r helper = true) :
    launchParentOk (restartList fresh records now) (r.restarted (fresh r.id) now) (helper.restarted r) = true := by
  have hold : ∀ a i, fresh a i ≠ helper.parentRunId := not_fresh_of_named hf hr (by simp [RunRecord.named, hhelper])
  unfold launchParentOk at *
  rw [show (helper.restarted r).parentRunId = helper.parentRunId from rfl, byId_restartList hf hn hold]
  cases hparent : byId records helper.parentRunId with
  | none =>
    have hterminal : (r.restarted (fresh r.id) now).status.isTerminal = true := atRest_restarted.terminal
    simp [resolved_restarted, hterminal]
  | some parent =>
    have hcore : (parent.restarted (fresh parent.id) now).core = parent.core := RunRecord.core_restarted
    have hnone : (parent.restarted (fresh parent.id) now).asyncHelper.isNone = parent.asyncHelper.isNone := by
      have hsome := isSome_asyncHelper_of_core hcore
      rw [← Option.not_isSome, ← Option.not_isSome, hsome]
    simp only [hparent, Option.map_some] at h ⊢
    rw [agentId_of_core hcore, sessionId_of_core hcore, hnone, helperCompletion_of_core hcore]
    exact h

theorem completionIdentity_of_resolved {id : String} (hres : helper.completion.isUnresolved = false)
    (h : ∀ run, byId records id = some run → completionRunOk r helper run = true) :
    completionIdentity records r helper id = .ok () := by
  unfold completionIdentity
  cases hid : byId records id with
  | none => cases hc : helper.completion <;> simp_all [HelperCompletionState.isUnresolved] <;> rfl
  | some run =>
    have hok := h run hid
    cases hc : helper.completion <;> simp_all [HelperCompletionState.isUnresolved]

theorem completionRunOk_of_identity {id : String} {run : RunRecord} (h : completionIdentity records r helper id = .ok ())
    (hid : byId records id = some run) : completionRunOk r helper run = true := by
  unfold completionIdentity at h
  rw [hid] at h
  cases hc : helper.completion <;> simp_all

theorem completionRunOk_restarted {f g : ℕ → String} {run : RunRecord} (h : completionRunOk r helper run = true) :
    completionRunOk (r.restarted f now) (helper.restarted r) (run.restarted g now) = true := by
  have hcore : (run.restarted g now).core = run.core := RunRecord.core_restarted
  have hterminal : (run.restarted g now).status.isTerminal = true := atRest_restarted.terminal
  unfold completionRunOk at *
  rw [helperCompletion_of_core hcore, agentId_of_core hcore, sessionId_of_core hcore, id_restarted, hterminal]
  simp only [Bool.and_eq_true] at h ⊢
  refine ⟨⟨h.1.1, h.1.2⟩, ?_⟩
  split
  · rfl
  · rfl

end Helper

theorem helperAccepted_restarted {helper : AsyncHelper} (hf : FreshIds fresh records) (hn : (records.map (·.id)).Nodup)
    (hr : r ∈ records) (hhelper : r.asyncHelper = some helper) (h : HelperAccepted host records r helper) :
    HelperAccepted host (restartList fresh records now) (r.restarted (fresh r.id) now) (helper.restarted r) := by
  have hcore : (r.restarted (fresh r.id) now).core = r.core := RunRecord.core_restarted
  have hperm := steerKeys_restarted now (f := fresh r.id) h.keys.2
  refine
    { identity := helperIdentity_restarted h.identity
      steers := helperSteers_restarted h.keys.2 h.steers
      keys := ⟨fun key hkey => h.keys.1 key (hperm.mem_iff.mp hkey), hperm.nodup_iff.mpr h.keys.2⟩
      parent_ok := launchParentOk_restarted hf hn hr hhelper h.parent_ok
      state_ok := completionStateOk_restarted h.state_ok
      completion_ok := ?_
      parents_end := ?_ }
  · intro id hid
    rw [runId_restarted] at hid
    obtain ⟨h1, h2, h3, h4⟩ := h.completion_ok id hid
    have hold : ∀ a i, fresh a i ≠ id :=
      not_fresh_of_named hf hr (by simp [RunRecord.named, RunRecord.reservation, hhelper, hid])
    refine ⟨h1, by rwa [id_restarted], h3, completionIdentity_of_resolved resolved_restarted ?_⟩
    intro run' hrun'
    rw [byId_restartList hf hn hold] at hrun'
    obtain ⟨run, hrun, rfl⟩ := Option.map_eq_some_iff.mp hrun'
    exact completionRunOk_restarted (completionRunOk_of_identity h4 hrun)
  · rw [parentsEnd_iff, id_restarted, parentRunId_of_core hcore]
    exact (parentsEnd_iff.mp h.parents_end).mono (parentOf_restartList hn)

/-! ## The checks of a completion -/

/-- A completion whose helper is gone holds no steers. -/
def NoOrphanSteers (records : List RunRecord) : Prop :=
  ∀ r ∈ records, ∀ origin, r.helperCompletion = some origin → (∀ source ∈ records, source.id ≠ origin.helperRunId) →
    r.pendingSteers = []

theorem asyncHelper_none_of_completion (a : Accepted host records) (hr : r ∈ records) {origin : HelperCompletion}
    (horigin : r.helperCompletion = some origin) : r.asyncHelper = none := by
  cases hhelper : r.asyncHelper with
  | none => rfl
  | some helper =>
    have h := (a.helper_ok r hr helper hhelper).identity
    simp [helperIdentity, horigin] at h

theorem mirrored_restarted {f : ℕ → String} (hterminal : r.status.isTerminal = true) (hhelper : r.asyncHelper = none)
    (hsteers : r.pendingSteers = []) : (r.restarted f now).mirrored = r.mirrored := by
  have hsent : ({ r with terminalPublished := false } : RunRecord).steersToSendAgain f =
      ([], { r with terminalPublished := false }) := by
    unfold RunRecord.steersToSendAgain
    rw [if_neg (by simp [hhelper]), if_pos hsteers]
  unfold RunRecord.restarted
  rw [hsent]
  rcases recoverAfterRestart_spec now (r := { r with terminalPublished := false }) with ⟨_, heq⟩ | ⟨hne, _⟩
  · rw [heq]
    unfold RunRecord.reviewAfterRestart
    simp only [hhelper]
  · rw [hterminal] at hne
    cases hne

theorem not_mirrored_restarted {f : ℕ → String} (hterminal : r.status.isTerminal = true) (hhelper : r.asyncHelper = none)
    (hsteers : r.pendingSteers ≠ []) : (r.restarted f now).mirrored = false := by
  have hsent : (({ r with terminalPublished := false } : RunRecord).steersToSendAgain f).2 =
      { r with terminalPublished := false, mirrored := false, readSteerKeys := [], pendingSteers := [] } := by
    unfold RunRecord.steersToSendAgain
    rw [if_neg (by simp [hhelper]), if_neg hsteers]
  unfold RunRecord.restarted
  rw [hsent]
  rcases recoverAfterRestart_spec now
    (r := { r with terminalPublished := false, mirrored := false, readSteerKeys := [], pendingSteers := [] }) with
    ⟨_, heq⟩ | ⟨hne, _⟩
  · rw [heq]
    unfold RunRecord.reviewAfterRestart
    simp only [hhelper]
  · rw [hterminal] at hne
    cases hne

theorem isSourceOf_restarted {f g : ℕ → String} {source : RunRecord} {origin : HelperCompletion}
    (h : isSourceOf r origin source = true) :
    isSourceOf (r.restarted f now) origin (source.restarted g now) = true := by
  have hcore : (r.restarted f now).core = r.core := RunRecord.core_restarted
  unfold isSourceOf at *
  simp only [restarted_helper, Option.any_map, agentId_of_core hcore, sessionId_of_core hcore, id_restarted]
  rw [Option.any_eq_true] at h ⊢
  obtain ⟨helper, hhelper, hok⟩ := h
  refine ⟨helper, hhelper, ?_⟩
  show (helper.ownerAgentId == r.agentId && helper.ownerSessionId == r.sessionId &&
    helper.parentRunId == origin.launchParentRunId && (helper.restarted source).completion.runId == some r.id) = true
  rw [runId_restarted]
  exact hok

theorem originValidate_restarted (hf : FreshIds fresh records) (a : Accepted host records) (hr : r ∈ records)
    (hsteers : NoOrphanSteers records) :
    originValidate (restartList fresh records now) (r.restarted (fresh r.id) now) = .ok () := by
  have hcore : (r.restarted (fresh r.id) now).core = r.core := RunRecord.core_restarted
  have h := a.origin_ok r hr
  unfold originValidate at *
  rw [helperCompletion_of_core hcore]
  cases horigin : r.helperCompletion with
  | none => rfl
  | some origin =>
    have hold : ∀ a i, fresh a i ≠ origin.helperRunId := not_fresh_of_named hf hr (by simp [RunRecord.named, horigin])
    simp only [horigin, bind_eq_ok, ensure_eq_ok] at h ⊢
    rw [of_core RunRecord.source (fun _ => rfl) hcore, id_restarted, parentRunId_of_core hcore]
    simp only [byId_restartList hf a.ids hold]
    obtain ⟨_, h1, h2⟩ := h
    refine ⟨(), h1, ?_⟩
    cases hsource : byId records origin.helperRunId with
    | none =>
      simp only [hsource, ensure_eq_ok, Option.map_none] at h2 ⊢
      have hpending := hsteers r hr origin horigin (byId_eq_none.mp hsource)
      rw [mirrored_restarted h2.1 (asyncHelper_none_of_completion a hr horigin) hpending]
      exact ⟨atRest_restarted.terminal, h2.2⟩
    | some source =>
      simp only [hsource, ensure_eq_ok, Option.map_some] at h2 ⊢
      exact isSourceOf_restarted h2

theorem filterMap_restartList {κ : Type} {p : RunRecord → Option κ}
    (hsent : ∀ r : RunRecord, ∀ x ∈ r.sentAgain (fresh r.id) now, p x = none)
    (hsame : ∀ r : RunRecord, p (r.restarted (fresh r.id) now) = p r) :
    (restartList fresh records now).filterMap p = records.filterMap p := by
  induction records with
  | nil => rfl
  | cons r rest ih =>
    have hone : (restartOne fresh now r).filterMap p = (p r).toList := by
      rw [restartOne, List.filterMap_append, List.filterMap_eq_nil_iff.mpr (hsent r), List.nil_append]
      cases hp : p r with
      | none => simp [hsame, hp]
      | some k => simp [hsame, hp]
    rw [restartList, List.flatMap_cons, List.filterMap_append, hone]
    have hrest : (rest.flatMap (restartOne fresh now)).filterMap p = rest.filterMap p := ih
    rw [hrest]
    cases hp : p r with
    | none => rw [List.filterMap_cons_none hp, Option.toList_none, List.nil_append]
    | some k => rw [List.filterMap_cons_some hp, Option.toList_some, List.singleton_append]

theorem accepted_restartList (hf : FreshIds fresh records) (a : Accepted host records) (hsteers : NoOrphanSteers records) :
    Accepted host (restartList fresh records now) where
  record_ok := by
    intro x hx
    obtain ⟨r, hr, hsent | rfl⟩ := mem_restartList.mp hx
    · exact recordAccepted_sentAgain (hf.nonblank r.id) (a.record_ok r hr) hsent
    · exact recordAccepted_restarted hf a.ids hr (a.record_ok r hr)
  ids := ids_restartList _ hf a.ids
  helper_ok := by
    intro x hx helper' hhelper'
    obtain ⟨r, hr, hsent | rfl⟩ := mem_restartList.mp hx
    · obtain ⟨_, _, i, steer, rfl⟩ := mem_sentAgain hsent
      cases hhelper'
    · obtain ⟨helper, hhelper, rfl⟩ := restarted_helper_eq hhelper'
      exact helperAccepted_restarted hf a.ids hr hhelper (a.helper_ok r hr helper hhelper)
  launches := by
    rw [filterMap_restartList]
    · exact a.launches
    · intro r x hx
      obtain ⟨_, _, i, steer, rfl⟩ := mem_sentAgain hx
      rfl
    · exact fun r => launch_of_core RunRecord.core_restarted
  reservations := by
    rw [filterMap_restartList]
    · exact a.reservations
    · intro r x hx
      obtain ⟨_, _, i, steer, rfl⟩ := mem_sentAgain hx
      rfl
    · exact fun r => reservation_of_core RunRecord.core_restarted
  origin_ok := by
    intro x hx
    obtain ⟨r, hr, hsent | rfl⟩ := mem_restartList.mp hx
    · obtain ⟨_, _, i, steer, rfl⟩ := mem_sentAgain hsent
      rfl
    · exact originValidate_restarted hf a hr hsteers

/-! ## The restored ledger -/

namespace RunLedger

def ofRecords (records : List RunRecord) : RunLedger := records.foldl add ∅

theorem getElem?_ofRecords (hn : (records.map (·.id)).Nodup) (id : String) :
    (ofRecords records)[id]? = byId records id := by
  have h := Table.getElem?_foldl_insert (t := (∅ : RunLedger)) (fun r : RunRecord => r.id) (fun r => r) hn id
  have hfind : (fun e : RunRecord => decide (e.id = id)) = fun r => r.id == id := by
    funext r
    exact (beq_eq_decide r.id id).symm
  rw [hfind, Option.map_id', Std.ExtTreeMap.getElem?_empty, Option.or_none] at h
  exact h

theorem keyed_ofRecords (hn : (records.map (·.id)).Nodup) : Keyed (ofRecords records) := by
  intro id r h
  rw [getElem?_ofRecords hn] at h
  exact (mem_of_byId h).2

theorem records_ofRecords (hn : (records.map (·.id)).Nodup) : (ofRecords records).records.Perm records := by
  rw [List.perm_ext_iff_of_nodup (keyed_ofRecords hn).ids.of_map hn.of_map]
  intro r
  rw [(keyed_ofRecords hn).mem_records, getElem?_ofRecords hn, byId_eq_some hn]
  simp

theorem foldl_restoreRecord (hlive : ∀ r ∈ records, live.contains r.agentId = true) (ledger : RunLedger) :
    records.foldl (restoreRecord fresh live now) ledger = (restartList fresh records now).foldl add ledger := by
  induction records generalizing ledger with
  | nil => rfl
  | cons r rest ih =>
    have hone : restoreRecord fresh live now ledger r = (restartOne fresh now r).foldl add ledger := by
      unfold restoreRecord restartOne
      rw [if_pos (hlive r List.mem_cons_self), List.foldl_append]
      rfl
    rw [List.foldl_cons, hone, ih (fun x hx => hlive x (List.mem_cons_of_mem _ hx)), restartList, restartList,
      List.flatMap_cons, List.foldl_append]

variable (fresh now pins) in
theorem restoredWithPins_eq (hlive : ∀ r ∈ records, live.contains r.agentId = true) :
    restoredWithPins fresh records live now pins = (ofRecords (restartList fresh records now)).pruneWithPins now pins := by
  rw [restoredWithPins, foldl_restoreRecord hlive]
  rfl

theorem ofRecords_records {ledger : RunLedger} (hk : Keyed ledger) {l : List RunRecord} (hp : l.Perm ledger.records) :
    ofRecords l = ledger := by
  have hn : (l.map (·.id)).Nodup := (hp.map _).nodup_iff.mpr hk.ids
  refine Table.ext_getElem? fun id => ?_
  rw [getElem?_ofRecords hn]
  refine Option.ext fun r => ?_
  rw [byId_eq_some hn, hp.mem_iff, hk.mem_records]
  constructor
  · rintro ⟨h, rfl⟩
    exact h
  · intro h
    have hid := hk id r h
    exact ⟨hid ▸ h, hid⟩

theorem restartList_atRest {l : List RunRecord} (h : ∀ r ∈ l, AtRest r) : restartList fresh l now = l := by
  induction l with
  | nil => rfl
  | cons r rest ih =>
    have hr := h r List.mem_cons_self
    rw [restartList, List.flatMap_cons, restartOne, hr.sentAgain_eq, hr.restarted_eq, List.nil_append,
      List.singleton_append]
    congr 1
    exact ih fun x hx => h x (List.mem_cons_of_mem _ hx)

theorem live_restartList (hlive : ∀ r ∈ records, live.contains r.agentId = true) {x : RunRecord}
    (hx : x ∈ restartList fresh records now) : live.contains x.agentId = true := by
  obtain ⟨r, hr, hsent | rfl⟩ := mem_restartList.mp hx
  · obtain ⟨_, _, i, steer, rfl⟩ := mem_sentAgain hsent
    exact hlive r hr
  · rw [agentId_of_core RunRecord.core_restarted]
    exact hlive r hr

end RunLedger

/-- What a restart should give: records that are accepted, that a second restart at the same time leaves as they are,
and that pruning at a later time leaves accepted. -/
structure Reloadable (host : Host) (live : List String) (now : ℕ) (pins : List String) (ledger : RunLedger) : Prop where
  accepted : validate host (ledger.snapshotRecords live) = .ok ()
  stable : ∀ fresh, RunLedger.restoredWithPins fresh (ledger.snapshotRecords live) live now pins = ledger
  pruned : ∀ now' pins', now ≤ now' →
    validate host ((ledger.pruneWithPins now' pins').snapshotRecords live) = .ok ()

theorem orphan_terminal (a : Accepted host records) (hr : r ∈ records) {origin : HelperCompletion}
    (horigin : r.helperCompletion = some origin) (hgone : ∀ source ∈ records, source.id ≠ origin.helperRunId) :
    r.status.isTerminal = true := by
  have h := a.origin_ok r hr
  unfold originValidate at h
  simp only [horigin, bind_eq_ok, byId_eq_none.mpr hgone, ensure_eq_ok] at h
  obtain ⟨_, _, hterminal, _⟩ := h
  exact hterminal

theorem orphan_refused (hf : FreshIds fresh records) (a : Accepted host records) {l : List RunRecord} (hr : r ∈ records)
    {origin : HelperCompletion} (horigin : r.helperCompletion = some origin)
    (hgone : ∀ source ∈ records, source.id ≠ origin.helperRunId) (hsteers : r.pendingSteers ≠ [])
    (hsub : ∀ x ∈ l, x ∈ restartList fresh records now) :
    originValidate l (r.restarted (fresh r.id) now) ≠ .ok () := by
  have hnone : byId l origin.helperRunId = none := by
    rw [byId_eq_none]
    intro x hx
    obtain ⟨source, hsource, hsent | rfl⟩ := mem_restartList.mp (hsub x hx)
    · obtain ⟨_, _, i, steer, rfl⟩ := mem_sentAgain hsent
      exact not_fresh_of_named hf hr (by simp [RunRecord.named, horigin]) _ _
    · rw [id_restarted]
      exact hgone source hsource
  intro h
  unfold originValidate at h
  rw [helperCompletion_of_core RunRecord.core_restarted, horigin] at h
  simp only [bind_eq_ok, hnone, ensure_eq_ok] at h
  obtain ⟨_, _, _, hmirrored⟩ := h
  rw [not_mirrored_restarted (orphan_terminal a hr horigin hgone) (asyncHelper_none_of_completion a hr horigin) hsteers] at hmirrored
  cases hmirrored

theorem mem_restored {x : RunRecord} (hf : FreshIds fresh records) (hn : (records.map (·.id)).Nodup)
    (hlive : ∀ r ∈ records, live.contains r.agentId = true)
    (hx : x ∈ (RunLedger.restoredWithPins fresh records live now pins).records) : x ∈ restartList fresh records now := by
  rw [RunLedger.restoredWithPins_eq _ _ _ hlive] at hx
  exact (RunLedger.records_ofRecords (ids_restartList _ hf hn)).mem_iff.mp (RunLedger.mem_records_prune.mp hx).1

variable (now pins) in
theorem snapshotRecords_restored (hf : FreshIds fresh records) (hn : (records.map (·.id)).Nodup)
    (hlive : ∀ r ∈ records, live.contains r.agentId = true) :
    ((RunLedger.restoredWithPins fresh records live now pins).snapshotRecords live).Perm
      (RunLedger.restoredWithPins fresh records live now pins).records :=
  RunLedger.snapshotRecords_perm_of_live fun _ hr => RunLedger.live_restartList hlive (mem_restored hf hn hlive hr)

theorem not_accepted_of_orphan (hok : validate host records = .ok ())
    (hlive : ∀ r ∈ records, live.contains r.agentId = true) (hf : FreshIds fresh records) (hr : r ∈ records)
    {origin : HelperCompletion} (horigin : r.helperCompletion = some origin)
    (hgone : ∀ source ∈ records, source.id ≠ origin.helperRunId) (hsteers : r.pendingSteers ≠ []) :
    validate host ((RunLedger.restoredWithPins fresh records live now pins).snapshotRecords live) ≠ .ok () := by
  intro hok'
  have a := validate_eq_ok.mp hok
  have hsaved := snapshotRecords_restored now pins hf a.ids hlive
  have hkept : r.restarted (fresh r.id) now ∈ (RunLedger.restoredWithPins fresh records live now pins).records := by
    rw [RunLedger.restoredWithPins_eq _ _ _ hlive]
    refine RunLedger.mem_records_prune.mpr ⟨?_, RunLedger.not_expired (.inr (.inr (.inl ?_)))⟩
    · exact (RunLedger.records_ofRecords (ids_restartList _ hf a.ids)).mem_iff.mpr (mem_restartList.mpr ⟨r, hr, .inr rfl⟩)
    · exact not_mirrored_restarted (orphan_terminal a hr horigin hgone) (asyncHelper_none_of_completion a hr horigin) hsteers
  exact orphan_refused hf a hr horigin hgone hsteers (fun x hx => mem_restored hf a.ids hlive (hsaved.mem_iff.mp hx))
    ((validate_eq_ok.mp hok').origin_ok _ (hsaved.mem_iff.mpr hkept))

/-- **A restart of accepted records gives a ledger that can be loaded again**, exactly when no completion whose helper
is gone holds a steer. -/
theorem restored_reloadable_iff (host : Host) (records : List RunRecord) (live pins : List String) (now : ℕ)
    (fresh : String → ℕ → String) (hok : validate host records = .ok ())
    (hlive : ∀ r ∈ records, live.contains r.agentId = true) (hf : FreshIds fresh records) :
    Reloadable host live now pins (RunLedger.restoredWithPins fresh records live now pins) ↔ NoOrphanSteers records := by
  constructor
  · intro h r hr origin horigin hgone
    by_contra hsteers
    exact not_accepted_of_orphan hok hlive hf hr horigin hgone hsteers h.accepted
  · intro hsteers
    have a := validate_eq_ok.mp hok
    have hn := ids_restartList now hf a.ids
    have hk := RunLedger.keyed_ofRecords hn
    have hrestored := RunLedger.restoredWithPins_eq now fresh pins hlive
    have hkeyed : RunLedger.Keyed (RunLedger.restoredWithPins fresh records live now pins) := by
      rw [hrestored]
      exact hk.prune
    have hmem : ∀ r ∈ (RunLedger.restoredWithPins fresh records live now pins).records,
        r ∈ restartList fresh records now := fun r hr => mem_restored hf a.ids hlive hr
    have hsaved := snapshotRecords_restored now pins hf a.ids hlive
    have hfirst : Accepted host (RunLedger.restoredWithPins fresh records live now pins).records := by
      rw [hrestored]
      exact RunLedger.accepted_prune _ _ hk
        ((accepted_restartList hf a hsteers).closed (Closed.of_perm hn (RunLedger.records_ofRecords hn)))
    refine ⟨?_, ?_, ?_⟩
    · exact validate_eq_ok.mpr (hfirst.closed (Closed.of_perm hkeyed.ids hsaved))
    · intro fresh'
      have hrest : ∀ r ∈ (RunLedger.restoredWithPins fresh records live now pins).snapshotRecords live, AtRest r :=
        fun r hr => atRest_restartList (hmem r (hsaved.mem_iff.mp hr))
      have hlive' : ∀ r ∈ (RunLedger.restoredWithPins fresh records live now pins).snapshotRecords live,
          live.contains r.agentId = true := fun r hr => RunLedger.live_restartList hlive (hmem r (hsaved.mem_iff.mp hr))
      rw [RunLedger.restoredWithPins_eq _ _ _ hlive', RunLedger.restartList_atRest hrest,
        RunLedger.ofRecords_records hkeyed hsaved, hrestored, RunLedger.prune_prune hk]
    · intro now' pins' _
      have hlater := RunLedger.accepted_prune now' pins' hkeyed hfirst
      have hstill : ∀ r ∈ ((RunLedger.restoredWithPins fresh records live now pins).pruneWithPins now' pins').records,
          live.contains r.agentId = true :=
        fun r hr => RunLedger.live_restartList hlive (hmem r (RunLedger.mem_records_prune.mp hr).1)
      have hsaved' := RunLedger.snapshotRecords_perm_of_live hstill
      exact validate_eq_ok.mpr (hlater.closed (Closed.of_perm hkeyed.prune.ids hsaved'))

/-- Identifiers for an example: as many letters as the number of the run, a mark and the run it came from. -/
def sampleFresh (a : String) (i : ℕ) : String := String.ofList (List.replicate i 'u' ++ 'n' :: a.toList)

theorem sampleFresh_injective (a : String) (i : ℕ) (b : String) (j : ℕ) (h : sampleFresh a i = sampleFresh b j) :
    a = b ∧ i = j := by
  unfold sampleFresh at h
  have hl : List.replicate i 'u' ++ 'n' :: a.toList = List.replicate j 'u' ++ 'n' :: b.toList := by
    have htext := congrArg String.toList h
    rwa [String.toList_ofList, String.toList_ofList] at htext
  clear h
  induction i generalizing j with
  | zero =>
    cases j with
    | zero =>
      simp only [List.replicate_zero, List.nil_append, List.cons.injEq, true_and] at hl
      exact ⟨String.toList_inj.mp hl, rfl⟩
    | succ j => simp [List.replicate_succ] at hl
  | succ i ih =>
    cases j with
    | zero => simp [List.replicate_succ] at hl
    | succ j =>
      simp only [List.replicate_succ, List.cons_append, List.cons.injEq, true_and] at hl
      obtain ⟨hab, hij⟩ := ih j hl
      exact ⟨hab, by omega⟩

theorem sampleFresh_nonblank (a : String) (i : ℕ) : trimmedEmpty (sampleFresh a i) = false := by
  unfold trimmedEmpty sampleFresh
  rw [String.toList_ofList, List.all_append, List.all_cons]
  simp [show isWhitespace 'n' = false by decide]

theorem sampleFresh_ne {a s : String} {i : ℕ} (h : s.toList.head? ≠ some 'u' ∧ s.toList.head? ≠ some 'n') :
    sampleFresh a i ≠ s := by
  rintro rfl
  unfold sampleFresh at h
  rw [String.toList_ofList] at h
  cases i with
  | zero => exact h.2 rfl
  | succ i => exact h.1 rfl

def sampleSteer : RunSteer :=
  { idempotencyKey := "key", text := "and the totals?", attachmentIds := [], skill := none, acceptedAtMs := 3 }

/-- A finished completion whose helper is gone, with the steers it holds. -/
def orphan (steers : List RunSteer) : RunRecord :=
  { id := "run_completion", agentId := "companion", sessionId := "session", source := .delegation, sourceRef := none
    systemFollowup := none, status := .completed, idempotencyKey := none
    input := { text := "", attachmentIds := [], skill := none }, editedInput := none, createdAtMs := 1
    startedAtMs := some 1, finishedAtMs := some 2, error := none, actionReceipts := []
    parentRunId := some "run_parent", recovery := none, recoveryOf := none, recoveryAttempt := 0, turn := none
    asyncHelper := none
    helperCompletion := some { helperRunId := "run_child", launchParentRunId := "run_parent" }
    replyMessageId := some "message", replySha256 := none, pendingSteers := steers, readSteerKeys := []
    steeredKeys := [], mirrored := true, terminalPublished := false }

def sampleHost : Host := { digest := fun _ => "", outputContract := fun _ => true }

theorem orphan_accepted (steers : List RunSteer) : validate sampleHost [orphan steers] = .ok () := by
  rw [validate_eq_ok]
  refine ⟨?_, List.nodup_singleton _, ?_, List.nodup_nil, List.nodup_nil, ?_⟩
  · intro r hr
    rw [List.mem_singleton.mp hr]
    have hid : trimmedEmpty "run_completion" = false := by decide
    have howner : trimmedEmpty "companion" = false ∧ trimmedEmpty "session" = false := by decide
    exact ⟨rfl, rfl, rfl, rfl, ⟨Nat.zero_le _, ⟨fun _ => rfl, fun _ => rfl⟩, nofun⟩, rfl, hid, howner, nofun⟩
  · intro r hr helper hhelper
    rw [List.mem_singleton.mp hr] at hhelper
    cases hhelper
  · intro r hr
    rw [List.mem_singleton.mp hr]
    have hgone : byId [orphan steers] "run_child" = none := by
      rw [byId_eq_none]
      intro source hsource
      rw [List.mem_singleton.mp hsource]
      show "run_completion" ≠ "run_child"
      decide
    unfold originValidate
    simp only [orphan, bind_eq_ok, ensure_eq_ok] at hgone ⊢
    rw [hgone]
    simp only [ensure_eq_ok]
    decide

theorem orphan_fresh (steers : List RunSteer) : FreshIds sampleFresh [orphan steers] where
  distinct := sampleFresh_injective
  unused := by
    intro a i r hr
    rw [List.mem_singleton.mp hr]
    show sampleFresh a i ∉ ["run_completion", "run_child"]
    simp only [List.mem_cons, List.not_mem_nil, or_false, not_or]
    exact ⟨sampleFresh_ne (by decide), sampleFresh_ne (by decide)⟩
  nonblank := sampleFresh_nonblank

/-- A completion with its steers sent: the ledger can be loaded again. -/
theorem orphan_without_steers_reloads :
    NoOrphanSteers [orphan []] ∧
      Reloadable sampleHost ["companion"] 10 [] (RunLedger.restoredWithPins sampleFresh [orphan []] ["companion"] 10 []) := by
  have hsteers : NoOrphanSteers [orphan []] := by
    intro r hr _ _ _
    rw [List.mem_singleton.mp hr]
    rfl
  exact ⟨hsteers, (restored_reloadable_iff sampleHost [orphan []] ["companion"] [] 10 sampleFresh (orphan_accepted [])
    (by decide) (orphan_fresh [])).mpr hsteers⟩

/-- A completion with a steer: it is accepted, and the ledger restored from it is refused. -/
theorem orphan_with_steer_unloadable :
    validate sampleHost [orphan [sampleSteer]] = .ok () ∧
      (∀ r ∈ [orphan [sampleSteer]], ["companion"].contains r.agentId = true) ∧
      FreshIds sampleFresh [orphan [sampleSteer]] ∧
      validate sampleHost ((RunLedger.restoredWithPins sampleFresh [orphan [sampleSteer]] ["companion"] 10
        []).snapshotRecords ["companion"]) ≠ .ok () := by
  have hlive : ∀ r ∈ [orphan [sampleSteer]], ["companion"].contains r.agentId = true := by decide
  refine ⟨orphan_accepted _, hlive, orphan_fresh _, ?_⟩
  refine not_accepted_of_orphan (orphan_accepted _) hlive (orphan_fresh _) (List.mem_singleton.mpr rfl) rfl ?_ (by decide)
  intro source hsource
  rw [List.mem_singleton.mp hsource]
  decide

end AnimaCore.Runs
