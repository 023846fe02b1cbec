import AnimaCore.Lib.Ranking
import AnimaCore.Runs.Mirroring
import AnimaCore.Runs.OnePlace

/-!
# AnimaCore.Runs.Mirrored — the retention loop, and the flag of a record

* `content`: what the history store keeps of a record.
* `Keeps r r'`: the change from `r` to `r'` leaves the flag set only where it leaves the content.  The functions over steers
  and the restart are such changes (`keeps_archive`, `keeps_restarted`), of a record whose archive is `Tidy`.
-/

namespace AnimaCore.Runs

open Lib

variable {r r' : RunRecord} {records : List RunRecord} {ledger : RunLedger} {now : ℕ} {pins : List String}

/-! ## The retention loop -/

instance : Std.TransCmp RankedRun.newestFirst where
  eq_swap := by
    intro a b
    exact Std.OrientedOrd.eq_swap
  isLE_trans := by
    intro a b c hab hbc
    exact Std.TransOrd.isLE_trans hbc hab

theorem RankedRun.runId_of_newestFirst {a b : RankedRun} (h : RankedRun.newestFirst a b = .eq) : a.runId = b.runId := by
  unfold RankedRun.newestFirst at h
  have heq := Std.LawfulEqCmp.eq_of_compare h
  exact (congrArg Prod.snd heq).symm

theorem mem_expiredRuns {runs : List RankedRun} (hn : (runs.map (·.runId)).Nodup) {id : String} :
    id ∈ RunLedger.expiredRuns now runs ↔ ∃ run ∈ runs, run.runId = id ∧ run.mirrored = true ∧
      (maxTerminalRunsPerAgent ≤ (runs.countP fun other => (RankedRun.newestFirst other run).isLT) ∨
        run.finishedAtMs < now - terminalRunRetentionMs) := by
  have hcut := @mem_drop_mergeSort RankedRun runs RankedRun.newestFirst _ hn.of_map
    (fun a ha b hb h => List.inj_on_of_nodup_map hn ha hb (RankedRun.runId_of_newestFirst h)) maxTerminalRunsPerAgent
  have hmem : ∀ run : RankedRun,
      run ∈ (runs.mergeSort fun left right => (RankedRun.newestFirst left right).isLE) ↔ run ∈ runs := fun run =>
    (List.mergeSort_perm _ _).mem_iff
  unfold RunLedger.expiredRuns
  generalize (runs.mergeSort fun left right => (RankedRun.newestFirst left right).isLE) = sorted at hcut hmem ⊢
  simp only [List.mem_map, List.mem_filter, Bool.and_eq_true, Bool.or_eq_true, decide_eq_true_eq, Prod.exists]
  constructor
  · rintro ⟨run, index, ⟨hindex, hmirrored, hlate⟩, rfl⟩
    have hget := (List.mem_zipIdx_iff_getElem?.mp hindex)
    have hrun : run ∈ sorted := List.mem_of_getElem? hget
    refine ⟨run, (hmem run).mp hrun, rfl, hmirrored, ?_⟩
    rcases hlate with hrank | hlate
    · left
      have hdrop : run ∈ sorted.drop maxTerminalRunsPerAgent := by
        refine List.mem_of_getElem? (i := index - maxTerminalRunsPerAgent) ?_
        rw [List.getElem?_drop, Nat.add_sub_cancel' hrank]
        exact hget
      exact ((hcut run).mp hdrop).2
    · exact .inr hlate
  · rintro ⟨run, hrun, rfl, hmirrored, hlate⟩
    rcases hlate with hrank | hlate
    · have hdrop : run ∈ sorted.drop maxTerminalRunsPerAgent := (hcut run).mpr ⟨hrun, hrank⟩
      obtain ⟨i, hi⟩ := List.mem_iff_getElem?.mp hdrop
      rw [List.getElem?_drop] at hi
      exact ⟨run, maxTerminalRunsPerAgent + i, ⟨List.mem_zipIdx_iff_getElem?.mpr hi, hmirrored, .inl (by omega)⟩, rfl⟩
    · obtain ⟨i, hi⟩ := List.mem_iff_getElem?.mp ((hmem run).mpr hrun)
      exact ⟨run, i, ⟨List.mem_zipIdx_iff_getElem?.mpr hi, hmirrored, .inr hlate⟩, rfl⟩

namespace RunLedger

theorem foldl_push (runs : List RunRecord) (o : Option (List RankedRun)) :
    runs.foldl (fun o r => some (o.getD [] ++ [ranked r])) o =
      if runs = [] then o else some (o.getD [] ++ runs.map ranked) := by
  induction runs generalizing o with
  | nil => rfl
  | cons r runs ih =>
    rw [List.foldl_cons, ih, if_neg (List.cons_ne_nil _ _)]
    split_ifs with h
    · rw [h]
      rfl
    · rw [Option.getD_some, List.append_assoc]
      rfl

theorem getElem?_rankedByAgent (a : String) :
    (rankedByAgent ledger.records pins)[a]? =
      if retained ledger pins a = [] then none else some ((retained ledger pins a).map ranked) := by
  have hgroup : ((ledger.records.filter fun r => r.isPrunable && !pins.contains r.id).filter
      fun r => decide (r.agentId = a)) = retained ledger pins a := by
    unfold retained
    rw [List.filter_filter]
    refine List.filter_congr fun r _ => ?_
    rw [Bool.and_assoc]
    rfl
  have hupsert := Table.getElem?_foldl_upsert (t := (∅ : Table String (List RankedRun))) RunRecord.agentId (fun _ => [])
    (fun runs r => runs ++ [ranked r]) (ledger.records.filter fun r => r.isPrunable && !pins.contains r.id) a
  rw [hgroup, foldl_push] at hupsert
  unfold rankedByAgent
  refine hupsert.trans ?_
  split_ifs
  · exact Std.ExtTreeMap.getElem?_empty
  · simp

theorem newestFirst_ranked (a b : RunRecord) : (RankedRun.newestFirst (ranked a) (ranked b)).isLT = newer a b := rfl

theorem pruneLoop_eq (hk : Keyed ledger) : ledger.pruneLoop now pins = ledger.pruneWithPins now pins := by
  refine Table.ext_getElem? fun id => ?_
  have hleaves : ∀ r, ledger[id]? = some r →
      (id ∈ ((rankedByAgent ledger.records (pinned ledger.records ++ pins)).toList.flatMap fun group =>
        expiredRuns now group.2) ↔ expired ledger now (pinned ledger.records ++ pins) r = true) := by
    intro r hr
    obtain rfl := hk id r hr
    generalize hpins : pinned ledger.records ++ pins = all
    have hn : ∀ a, (((retained ledger all a).map ranked).map (·.runId)).Nodup := by
      intro a
      rw [List.map_map]
      exact hk.ids.sublist (List.filter_sublist.map _)
    have hcount : ∀ x : RunRecord, (((retained ledger all x.agentId).map ranked).countP fun other =>
        (RankedRun.newestFirst other (ranked x)).isLT) =
        (retained ledger all x.agentId).countP fun other => newer other x := by
      intro x
      rw [List.countP_map]
      rfl
    have hmem : ∀ x a, x ∈ retained ledger all a ↔
        x ∈ ledger.records ∧ x.agentId = a ∧ x.isPrunable = true ∧ x.id ∉ all := by
      intro x a
      unfold retained
      simp only [List.mem_filter, Bool.and_eq_true, beq_iff_eq, Bool.not_eq_true', List.contains_eq_mem,
        decide_eq_false_iff_not, and_assoc]
    simp only [List.mem_flatMap, Prod.exists, Table.mem_toList, getElem?_rankedByAgent]
    unfold expired
    simp only [Bool.and_eq_true, Bool.or_eq_true, Bool.not_eq_true', List.contains_eq_mem, decide_eq_true_eq,
      decide_eq_false_iff_not]
    constructor
    · rintro ⟨a, runs, hgroup, hleave⟩
      by_cases hnil : retained ledger all a = []
      · rw [if_pos hnil] at hgroup
        cases hgroup
      · rw [if_neg hnil, Option.some.injEq] at hgroup
        subst hgroup
        obtain ⟨run, hrun, hid, hmirrored, hlate⟩ := (mem_expiredRuns (hn a)).mp hleave
        obtain ⟨x, hx, rfl⟩ := List.mem_map.mp hrun
        obtain ⟨hheld, rfl, hprunable, hpin⟩ := (hmem x a).mp hx
        have hsame : x = r := List.inj_on_of_nodup_map hk.ids hheld (mem_records.mpr ⟨_, hr⟩) hid
        subst hsame
        rw [hcount] at hlate
        exact ⟨⟨⟨hprunable, hpin⟩, hmirrored⟩, hlate⟩
    · rintro ⟨⟨⟨hprunable, hpin⟩, hmirrored⟩, hlate⟩
      have hx : r ∈ retained ledger all r.agentId := (hmem r _).mpr ⟨mem_records.mpr ⟨_, hr⟩, rfl, hprunable, hpin⟩
      refine ⟨r.agentId, _, if_neg (List.ne_nil_of_mem hx), ?_⟩
      refine (mem_expiredRuns (hn _)).mpr ⟨ranked r, List.mem_map_of_mem hx, rfl, hmirrored, ?_⟩
      rw [hcount]
      exact hlate
  unfold pruneLoop
  dsimp only
  rw [Table.getElem?_eraseAll, getElem?_prune]
  cases hid : ledger[id]? with
  | none => rw [Option.filter_none, ite_self]
  | some r =>
    by_cases hexp : expired ledger now (pinned ledger.records ++ pins) r = true
    · rw [if_pos ((hleaves r hid).mpr hexp), Option.filter_some, hexp]
      rfl
    · rw [if_neg fun h => hexp ((hleaves r hid).mp h), Option.filter_some, Bool.eq_false_of_not_eq_true hexp]
      rfl

end RunLedger

/-! ## What the store has of a record -/

namespace RunRecord

/-- What the store keeps of a record.  A copy that is read is not mirrored, and the other two fields are never saved. -/
def content (r : RunRecord) : RunRecord := { r with mirrored := false, readSteerKeys := [], terminalPublished := false }

def archive (r : RunRecord) : List RunSteer := (r.asyncHelper.map (·.unconsumedSteers)).getD []

/-- The archive is sorted and has none of the steers that wait. -/
def Tidy (r : RunRecord) : Prop :=
  sortSteers r.archive = r.archive ∧ ∀ s ∈ r.pendingSteers, ∀ u ∈ r.archive, u.idempotencyKey ≠ s.idempotencyKey

/-- A change that leaves the flag set only where it leaves the content. -/
def Keeps (r r' : RunRecord) : Prop := r'.mirrored = true → r.mirrored = true ∧ r'.content = r.content

theorem Keeps.trans {r'' : RunRecord} (h : Keeps r r') (h' : Keeps r' r'') : Keeps r r'' := by
  intro hm
  obtain ⟨hm', hc'⟩ := h' hm
  obtain ⟨hm'', hc⟩ := h hm'
  exact ⟨hm'', hc'.trans hc⟩

theorem keeps_of_unmirrored (h : r'.mirrored = false) : Keeps r r' := by
  intro hm
  rw [h] at hm
  cases hm

theorem Tidy.of_sub (h : Tidy r) (ha : r'.archive = r.archive) (hp : ∀ s ∈ r'.pendingSteers, s ∈ r.pendingSteers) :
    Tidy r' := by
  unfold Tidy
  rw [ha]
  exact ⟨h.1, fun s hs => h.2 s (hp s hs)⟩

theorem Tidy.of_content (h : Tidy r) (hc : r'.content = r.content) : Tidy r' := by
  have hhelper : r'.content.asyncHelper = r.content.asyncHelper := congrArg _ hc
  have hpending : r'.content.pendingSteers = r.content.pendingSteers := congrArg _ hc
  refine h.of_sub ?_ ?_
  · show (r'.content.asyncHelper.map (·.unconsumedSteers)).getD [] = (r.content.asyncHelper.map (·.unconsumedSteers)).getD []
    rw [hhelper]
  · show ∀ s ∈ r'.content.pendingSteers, s ∈ r.content.pendingSteers
    rw [hpending]
    exact fun s hs => hs

theorem tidy_of_archive (h : r.archive = []) : Tidy r := by
  unfold Tidy
  rw [h]
  exact ⟨List.mergeSort_nil, fun s _ u hu => absurd hu List.not_mem_nil⟩

theorem archive_finish {status : RunStatus} {error : Option RunError} : (r.finish status error now).archive = r.archive := by
  unfold archive finish sealTurnTerminal
  cases r.asyncHelper with
  | none => rfl
  | some helper =>
    simp only [Option.map_some, Option.getD_some]
    unfold AsyncHelper.finished
    split
    · rfl
    · split_ifs <;> rfl

theorem Tidy.finish {status : RunStatus} {error : Option RunError} (h : Tidy r) : Tidy (r.finish status error now) :=
  h.of_sub archive_finish fun _ hs => hs

theorem Tidy.commit {taken : List RunSteer} {outcome : RunOutcome} (h : Tidy r) : Tidy (r.commit taken outcome now) := by
  have hsteers : Tidy (({ r with replyMessageId := outcome.replyMessageId } : RunRecord).commitSteers taken) := by
    unfold commitSteers
    split_ifs
    · exact h
    · exact h.of_sub rfl fun s hs => (List.mem_filter.mp hs).1
  have hfinish := @Tidy.finish _ now outcome.status outcome.error hsteers
  unfold RunRecord.commit
  dsimp only
  split_ifs
  · exact hfinish
  · exact hfinish

theorem mirrored_commit {taken : List RunSteer} {outcome : RunOutcome} : (r.commit taken outcome now).mirrored = false := by
  unfold commit
  dsimp only
  split_ifs <;> rfl

theorem Tidy.assigned {e : Edit} (h : Tidy r) : Tidy (r.assign e) := by
  refine h.of_sub ?_ fun _ hs => hs
  unfold archive assign
  cases r.asyncHelper <;> rfl

theorem Tidy.claimed {recovery : Option RecoveryRecord} {completion : HelperCompletionState} (h : Tidy r) :
    Tidy (r.claim recovery completion) := by
  refine h.of_sub ?_ fun _ hs => hs
  unfold archive claim
  cases r.asyncHelper <;> rfl

/-! ### Archived steers -/

theorem foldl_archiveSteer {taken : List String} (steers pending unconsumed : List RunSteer) (changed : Bool) :
    ∃ added changed', steers.foldl (archiveSteer taken) (pending, unconsumed, changed) =
        (pending ++ steers.filter fun s => taken.contains s.idempotencyKey, unconsumed ++ added, changed') ∧
      (∀ s ∈ added, s ∈ steers ∧ taken.contains s.idempotencyKey = false) ∧
      (changed' = false → changed = false ∧ added = [] ∧
        ∀ s ∈ steers, taken.contains s.idempotencyKey = false → ∃ u ∈ unconsumed, u.idempotencyKey = s.idempotencyKey) := by
  induction steers generalizing pending unconsumed changed with
  | nil => exact ⟨[], changed, by simp, by simp, by simp⟩
  | cons s steers ih =>
    rw [List.foldl_cons]
    by_cases htaken : taken.contains s.idempotencyKey = true
    · have hone : archiveSteer taken (pending, unconsumed, changed) s = (pending ++ [s], unconsumed, changed) := by
        unfold archiveSteer
        dsimp only
        rw [if_pos htaken]
      obtain ⟨added, changed', heq, hadded, hsame⟩ := ih (pending ++ [s]) unconsumed changed
      refine ⟨added, changed', ?_, fun x hx => ⟨List.mem_cons_of_mem _ (hadded x hx).1, (hadded x hx).2⟩, ?_⟩
      · rw [hone, heq, List.filter_cons_of_pos (by exact htaken), List.append_assoc, List.singleton_append]
      · intro hc
        obtain ⟨hchanged, hnil, hknown⟩ := hsame hc
        refine ⟨hchanged, hnil, fun x hx hnot => ?_⟩
        rcases List.mem_cons.mp hx with rfl | hx
        · rw [htaken] at hnot
          cases hnot
        · exact hknown x hx hnot
    · rw [Bool.not_eq_true] at htaken
      have hfilter : (s :: steers).filter (fun s => taken.contains s.idempotencyKey) =
          steers.filter fun s => taken.contains s.idempotencyKey :=
        List.filter_cons_of_neg (by rw [htaken]; decide)
      by_cases hknown : (unconsumed.any fun known => known.idempotencyKey == s.idempotencyKey) = true
      · have hone : archiveSteer taken (pending, unconsumed, changed) s = (pending, unconsumed, changed) := by
          unfold archiveSteer
          dsimp only
          rw [if_neg (by rw [htaken]; decide), if_pos hknown]
        obtain ⟨added, changed', heq, hadded, hsame⟩ := ih pending unconsumed changed
        refine ⟨added, changed', ?_, fun x hx => ⟨List.mem_cons_of_mem _ (hadded x hx).1, (hadded x hx).2⟩, ?_⟩
        · rw [hone, heq, hfilter]
        · intro hc
          obtain ⟨hchanged, hnil, hrest⟩ := hsame hc
          refine ⟨hchanged, hnil, fun x hx hnot => ?_⟩
          rcases List.mem_cons.mp hx with rfl | hx
          · simpa using hknown
          · exact hrest x hx hnot
      · have hone : archiveSteer taken (pending, unconsumed, changed) s = (pending, unconsumed ++ [s], true) := by
          unfold archiveSteer
          dsimp only
          rw [if_neg (by rw [htaken]; decide), if_neg hknown]
        obtain ⟨added, changed', heq, hadded, hsame⟩ := ih pending (unconsumed ++ [s]) true
        refine ⟨s :: added, changed', ?_, ?_, ?_⟩
        · rw [hone, heq, hfilter, List.append_assoc, List.singleton_append]
        · intro x hx
          rcases List.mem_cons.mp hx with rfl | hx
          · exact ⟨List.mem_cons_self, htaken⟩
          · exact ⟨List.mem_cons_of_mem _ (hadded x hx).1, (hadded x hx).2⟩
        · intro hc
          exact absurd (hsame hc).1 (by decide)

theorem archiveHelperSteersExcept_spec {helper : AsyncHelper} (hhelper : r.asyncHelper = some helper) (taken : List String) :
    ∃ added, (r.archiveHelperSteersExcept taken).archive = sortSteers (r.archive ++ added) ∧
      (r.archiveHelperSteersExcept taken).pendingSteers =
        (r.pendingSteers.filter fun s => taken.contains s.idempotencyKey) ∧
      (∀ s ∈ added, taken.contains s.idempotencyKey = false) ∧
      ((r.archiveHelperSteersExcept taken).mirrored = true → r.mirrored = true ∧ added = [] ∧
        (∀ s ∈ r.pendingSteers, taken.contains s.idempotencyKey = false →
          ∃ u ∈ r.archive, u.idempotencyKey = s.idempotencyKey)) ∧
      (r.archiveHelperSteersExcept taken).content =
        { r.content with
          asyncHelper := some { helper with unconsumedSteers := sortSteers (r.archive ++ added) }
          pendingSteers := r.pendingSteers.filter fun s => taken.contains s.idempotencyKey } := by
  have harchive : r.archive = helper.unconsumedSteers := by
    unfold archive
    rw [hhelper]
    rfl
  obtain ⟨added, changed, heq, hadded, hsame⟩ := @foldl_archiveSteer taken r.pendingSteers []
    helper.unconsumedSteers false
  have hrecord : r.archiveHelperSteersExcept taken =
      { r with
        asyncHelper := some { helper with unconsumedSteers := sortSteers (helper.unconsumedSteers ++ added) }
        pendingSteers := r.pendingSteers.filter fun s => taken.contains s.idempotencyKey
        readSteerKeys := r.readSteerKeys.filter taken.contains
        mirrored := if changed then false else r.mirrored } := by
    unfold archiveHelperSteersExcept
    rw [hhelper]
    dsimp only
    rw [heq]
    rfl
  rw [harchive, hrecord]
  refine ⟨added, rfl, rfl, fun s hs => (hadded s hs).2, ?_, rfl⟩
  intro hm
  cases changed with
  | true => cases hm
  | false =>
    obtain ⟨_, hnil, hknown⟩ := hsame rfl
    exact ⟨hm, hnil, hknown⟩

theorem archiveHelperSteersExcept_of_none (h : r.asyncHelper = none) (taken : List String) :
    r.archiveHelperSteersExcept taken = r := by
  unfold archiveHelperSteersExcept
  rw [h]

theorem keeps_archive (ht : Tidy r) (taken : List String) : Keeps r (r.archiveHelperSteersExcept taken) := by
  intro hm
  cases hhelper : r.asyncHelper with
  | none =>
    rw [archiveHelperSteersExcept_of_none hhelper] at hm ⊢
    exact ⟨hm, rfl⟩
  | some helper =>
    obtain ⟨added, _, _, _, hsame, hcontent⟩ := archiveHelperSteersExcept_spec hhelper taken
    obtain ⟨hmirrored, rfl, hknown⟩ := hsame hm
    refine ⟨hmirrored, ?_⟩
    -- no steer that waits is in the archive, so all of them were taken
    have hall : (r.pendingSteers.filter fun s => taken.contains s.idempotencyKey) = r.pendingSteers := by
      rw [List.filter_eq_self]
      intro s hs
      by_contra hnot
      rw [Bool.not_eq_true] at hnot
      obtain ⟨u, hu, hkey⟩ := hknown s hs hnot
      exact ht.2 s hs u hu hkey
    have harchive : r.archive = helper.unconsumedSteers := by
      unfold archive
      rw [hhelper]
      rfl
    rw [hcontent, hall, List.append_nil, ht.1, harchive]
    have hsame : r.content = { r.content with asyncHelper := some helper, pendingSteers := r.pendingSteers } := by
      have hself : r.content.asyncHelper = some helper := hhelper
      rw [← hself]
      rfl
    exact hsame.symm

theorem tidy_archive (ht : Tidy r) (taken : List String) : Tidy (r.archiveHelperSteersExcept taken) := by
  cases hhelper : r.asyncHelper with
  | none =>
    rw [archiveHelperSteersExcept_of_none hhelper]
    exact ht
  | some helper =>
    obtain ⟨added, harchive, hpending, hadded, _, _⟩ := archiveHelperSteersExcept_spec hhelper taken
    unfold Tidy
    rw [harchive, hpending]
    refine ⟨sortSteers_idem _, fun s hs u hu => ?_⟩
    obtain ⟨hwaits, htaken⟩ := List.mem_filter.mp hs
    rcases List.mem_append.mp ((sortSteers_perm _).mem_iff.mp hu) with hu | hu
    · exact ht.2 s hwaits u hu
    · intro hkey
      have hnot := hadded u hu
      rw [hkey, htaken] at hnot
      cases hnot

theorem tidy_steersToSendAgain {fresh : ℕ → String} : Tidy (r.steersToSendAgain fresh).2 := by
  unfold steersToSendAgain
  cases hhelper : r.asyncHelper with
  | none =>
    have harchive : r.archive = [] := by
      unfold archive
      rw [hhelper]
      rfl
    rw [if_neg (by decide)]
    split_ifs
    · exact tidy_of_archive harchive
    · exact tidy_of_archive rfl
  | some helper =>
    rw [if_pos (by rfl)]
    obtain ⟨added, harchive, hpending, _⟩ := archiveHelperSteersExcept_spec hhelper []
    unfold Tidy
    dsimp only
    rw [harchive, hpending]
    refine ⟨sortSteers_idem _, fun s hs => ?_⟩
    have hnone := (List.mem_filter.mp hs).2
    simp at hnone

theorem keeps_steersToSendAgain {fresh : ℕ → String} (ht : Tidy r) : Keeps r (r.steersToSendAgain fresh).2 := by
  unfold steersToSendAgain
  split_ifs
  · exact keeps_archive ht []
  · exact fun hm => ⟨hm, rfl⟩
  · exact keeps_of_unmirrored rfl

theorem unmirrored_steersToSendAgain {fresh : ℕ → String} (hm : r.mirrored = false) :
    (r.steersToSendAgain fresh).2.mirrored = false := by
  unfold steersToSendAgain
  split_ifs with hhelper
  · obtain ⟨helper, hhelper⟩ := Option.isSome_iff_exists.mp hhelper
    obtain ⟨_, _, _, _, hsame, _⟩ := archiveHelperSteersExcept_spec hhelper []
    by_contra htrue
    rw [Bool.not_eq_false] at htrue
    rw [(hsame htrue).1] at hm
    cases hm
  · exact hm
  · rfl

/-! ### Restarts -/

theorem keeps_recoverAfterRestart : Keeps r (r.recoverAfterRestart now) := by
  unfold recoverAfterRestart
  split
  · exact keeps_of_unmirrored rfl
  · exact keeps_of_unmirrored rfl
  · exact keeps_of_unmirrored rfl
  · exact fun hm => ⟨hm, rfl⟩

theorem Tidy.recovered (h : Tidy r) : Tidy (r.recoverAfterRestart now) := by
  unfold recoverAfterRestart
  split
  · exact h.finish
  · exact h.finish
  · exact h.finish
  · exact h

theorem keeps_reviewAfterRestart : Keeps r r.reviewAfterRestart := by
  intro hm
  unfold reviewAfterRestart at *
  cases hhelper : r.asyncHelper with
  | none =>
    rw [hhelper] at hm
    exact ⟨hm, rfl⟩
  | some helper =>
    simp only [hhelper] at hm ⊢
    by_cases hu : helper.completion.isUnresolved = true
    · rw [if_pos hu] at hm
      cases hm
    · rw [Bool.not_eq_true] at hu
      rw [hu, if_neg (by decide)] at hm
      refine ⟨hm, ?_⟩
      unfold content
      simp only [requireReview_of_resolved hu, ← hhelper]

theorem Tidy.reviewed (h : Tidy r) : Tidy r.reviewAfterRestart := by
  refine h.of_sub ?_ ?_
  · unfold reviewAfterRestart archive
    cases hhelper : r.asyncHelper with
    | none => simp only [hhelper]
    | some helper => rfl
  · intro s hs
    rwa [reviewAfterRestart_spec.1] at hs

theorem keeps_restarted {fresh : ℕ → String} (ht : Tidy r) : Keeps r (r.restarted fresh now) := by
  have hunpublished : Keeps r ({ r with terminalPublished := false } : RunRecord) := fun hm => ⟨hm, rfl⟩
  have hsteers : Keeps ({ r with terminalPublished := false } : RunRecord)
      (({ r with terminalPublished := false } : RunRecord).steersToSendAgain fresh).2 := keeps_steersToSendAgain ht
  exact ((hunpublished.trans hsteers).trans keeps_recoverAfterRestart).trans keeps_reviewAfterRestart

theorem tidy_restarted {fresh : ℕ → String} : Tidy (r.restarted fresh now) :=
  tidy_steersToSendAgain.recovered.reviewed

end RunRecord

end AnimaCore.Runs
