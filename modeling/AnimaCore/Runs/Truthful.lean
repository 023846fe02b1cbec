import AnimaCore.Runs.Mirrored

/-!
# AnimaCore.Runs.Truthful — a mirrored run is in the history store

The events of `Mirror` over whole runs.

* `Honest given rest r`: the store was given the content of `r`, if `r` is mirrored.
* `Truthful s`: so it is for every record of the ledger, of the last save and of what a writer keeps for its undo.  Every
  permitted event keeps it (`Truthful.step`).
-/

namespace AnimaCore.Runs

open Lib

variable {ρ : Type} {given given' : List (Copy ρ)} {rest : String → ρ} {x : ρ} {r r' : RunRecord} {ledger : RunLedger}
  {id : String} {now : ℕ} {fresh : ℕ → String}

/-! ## One record -/

/-- The store was given what a record with these other fields holds. -/
def Given (given : List (Copy ρ)) (x : ρ) (r : RunRecord) : Prop := ∃ w ∈ given, w.1.content = r.content ∧ w.2 = x

/-- A mirrored record is finished, and the store was given its content. -/
structure Honest (given : List (Copy ρ)) (x : ρ) (r : RunRecord) : Prop where
  saved : r.mirrored = true → Given given x r
  settled : r.mirrored = true → r.status.isTerminal = true
  tidy : r.Tidy

theorem Honest.keeps (h : Honest given x r) (hk : r.Keeps r') (ht : r'.Tidy) : Honest given x r' where
  saved := by
    intro hm
    obtain ⟨hmirrored, hcontent⟩ := hk hm
    obtain ⟨w, hw, heq, hrest⟩ := h.saved hmirrored
    exact ⟨w, hw, heq.trans hcontent.symm, hrest⟩
  settled := by
    intro hm
    obtain ⟨hmirrored, hcontent⟩ := hk hm
    have hstatus : r'.content.status = r.content.status := congrArg _ hcontent
    have hsettled := h.settled hmirrored
    show r'.content.status.isTerminal = true
    rw [hstatus]
    exact hsettled
  tidy := ht

theorem honest_of_unmirrored (hm : r.mirrored = false) (ht : r.Tidy) : Honest given x r where
  saved := fun h => absurd h (by simp [hm])
  settled := fun h => absurd h (by simp [hm])
  tidy := ht

theorem Honest.unmirrored (h : Honest given x r) (hs : r.status.isTerminal = false) : r.mirrored = false := by
  by_contra htrue
  rw [Bool.not_eq_false] at htrue
  have hterminal := h.settled htrue
  rw [hs] at hterminal
  cases hterminal

theorem Honest.mono (h : Honest given x r) (hg : ∀ w ∈ given, w ∈ given') : Honest given' x r where
  saved := by
    intro hm
    obtain ⟨w, hw, heq⟩ := h.saved hm
    exact ⟨w, hg w hw, heq⟩
  settled := h.settled
  tidy := h.tidy

/-! ## The ledger -/

/-- Every record of a ledger is honest, and under its identifier. -/
def AllHonest (given : List (Copy ρ)) (rest : String → ρ) (ledger : RunLedger) : Prop :=
  ∀ (id : String) (r : RunRecord), ledger[id]? = some r → r.id = id ∧ Honest given (rest id) r

namespace AllHonest

theorem keyed (h : AllHonest given rest ledger) : RunLedger.Keyed ledger := fun id r hr => (h id r hr).1

theorem empty : AllHonest given rest ∅ := by
  intro id r hr
  rw [Std.ExtTreeMap.getElem?_empty] at hr
  cases hr

theorem mono (h : AllHonest given rest ledger) (hg : ∀ w ∈ given, w ∈ given') : AllHonest given' rest ledger :=
  fun id r hr => ⟨(h id r hr).1, (h id r hr).2.mono hg⟩

theorem sub {ledger' : RunLedger} (h : AllHonest given rest ledger)
    (hsub : ∀ (id : String) (r : RunRecord), ledger'[id]? = some r → ledger[id]? = some r) : AllHonest given rest ledger' :=
  fun id r hr => h id r (hsub id r hr)

theorem mem_records (h : AllHonest given rest ledger) (hr : r ∈ ledger.records) : Honest given (rest r.id) r :=
  (h r.id r (h.keyed.mem_records.mp hr)).2

theorem insert (h : ∀ (id' : String) (r : RunRecord), id' ≠ id → ledger[id']? = some r → r.id = id' ∧ Honest given (rest id') r)
    (hid : r.id = id) (hr : Honest given x r) : AllHonest given (Function.update rest id x) (ledger.insert id r) := by
  intro id' r' hr'
  rw [Table.getElem?_insert_eq] at hr'
  by_cases heq : id = id'
  · subst heq
    rw [if_pos rfl, Option.some.injEq] at hr'
    subst hr'
    rw [Function.update_self]
    exact ⟨hid, hr⟩
  · rw [if_neg heq] at hr'
    rw [Function.update_of_ne (Ne.symm heq)]
    exact h id' r' (Ne.symm heq) hr'

theorem insert_same (h : ∀ (id' : String) (r : RunRecord), id' ≠ id → ledger[id']? = some r →
    r.id = id' ∧ Honest given (rest id') r) (hid : r.id = id) (hr : Honest given (rest id) r) :
    AllHonest given rest (ledger.insert id r) := by
  have hinsert := insert h hid hr
  rwa [Function.update_eq_self] at hinsert

theorem modify {f : RunRecord → RunRecord} (h : AllHonest given rest ledger)
    (hf : ∀ r, ledger[id]? = some r → (f r).id = r.id ∧ Honest given x (f r)) :
    AllHonest given (Function.update rest id x) (ledger.modify id f) := by
  intro id' r' hr'
  rw [Table.getElem?_modify_eq] at hr'
  by_cases heq : id = id'
  · subst heq
    rw [if_pos rfl] at hr'
    obtain ⟨r, hr, rfl⟩ := Option.map_eq_some_iff.mp hr'
    obtain ⟨hid, hhonest⟩ := hf r hr
    rw [Function.update_self]
    exact ⟨hid.trans (h id r hr).1, hhonest⟩
  · rw [if_neg heq] at hr'
    rw [Function.update_of_ne (Ne.symm heq)]
    exact h id' r' hr'

theorem modify_same {f : RunRecord → RunRecord} (h : AllHonest given rest ledger)
    (hf : ∀ r, ledger[id]? = some r → (f r).id = r.id ∧ Honest given (rest id) (f r)) :
    AllHonest given rest (ledger.modify id f) := by
  have hmodify := modify h hf
  rwa [Function.update_eq_self] at hmodify

theorem add (h : AllHonest given rest ledger) (hr : Honest given (rest r.id) r) : AllHonest given rest (ledger.add r) :=
  insert_same (fun id' r' _ hr' => h id' r' hr') rfl hr

theorem foldl_add {news : List RunRecord} (h : AllHonest given rest ledger) (hn : ∀ r ∈ news, r.mirrored = false ∧ r.Tidy) :
    AllHonest given rest (news.foldl RunLedger.add ledger) := by
  induction news generalizing ledger with
  | nil => exact h
  | cons r news ih =>
    obtain ⟨⟨hm, ht⟩, hrest⟩ := List.forall_mem_cons.mp hn
    exact ih (h.add (honest_of_unmirrored hm ht)) hrest

theorem offer (h : ∀ (id' : String) (r : RunRecord), id' ≠ id → ledger[id']? = some r → r.id = id' ∧ Honest given (rest id') r)
    (hr : ∀ r, ledger[id]? = some r → r.id = id ∧ (r.status ≠ .failed → Honest given (rest id) r) ∧
      (r.status = .failed → Honest given (rest id) (r.steersToSendAgain fresh).2)) :
    AllHonest given rest (ledger.offerSteersOfFailedRun id now fresh) := by
  unfold RunLedger.offerSteersOfFailedRun
  cases hid : ledger[id]? with
  | none =>
    rw [Option.filter_none]
    intro id' r hr'
    by_cases heq : id' = id
    · rw [heq, hid] at hr'
      cases hr'
    · exact h id' r heq hr'
  | some r =>
    obtain ⟨hkey, hkept, hoffered⟩ := hr r hid
    by_cases hfailed : r.status = .failed
    · have hsome : (some r).filter (fun r : RunRecord => r.status == .failed) = some r := by
        rw [Option.filter_some, hfailed]
        rfl
      rw [hsome]
      dsimp only
      refine foldl_add (insert_same h ((id_of_core RunRecord.core_steersToSendAgain).trans hkey) (hoffered hfailed)) ?_
      intro steer hsteer
      obtain ⟨queued, hqueued, rfl⟩ := List.mem_map.mp hsteer
      refine ⟨rfl, RunRecord.Tidy.finish (RunRecord.tidy_of_archive ?_)⟩
      unfold RunRecord.steersToSendAgain at hqueued
      split_ifs at hqueued
      · cases hqueued
      · cases hqueued
      · obtain ⟨i, hi, rfl⟩ := List.mem_mapIdx.mp hqueued
        rfl
    · have hnone : (some r).filter (fun r : RunRecord => r.status == .failed) = none := by
        rw [Option.filter_some, beq_eq_false_iff_ne.mpr hfailed]
        rfl
      rw [hnone]
      intro id' r' hr'
      by_cases heq : id' = id
      · rw [heq, hid, Option.some.injEq] at hr'
        subst hr'
        rw [heq]
        exact ⟨hkey, hkept hfailed⟩
      · exact h id' r' heq hr'

/-! ### The operations of the queue -/

theorem prune (h : AllHonest given rest ledger) (now : ℕ) (pins : List String) :
    AllHonest given rest (ledger.pruneWithPins now pins) :=
  h.sub fun _ _ hr => (RunLedger.prune_eq_some.mp hr).1

theorem commitRun (h : AllHonest given rest ledger) {taken : List RunSteer} {outcome : RunOutcome} {pins : List String} :
    AllHonest given rest (ledger.commitRun id taken outcome now pins) := by
  unfold RunLedger.commitRun
  refine (h.modify_same fun r hr => ?_).prune now pins
  refine ⟨?_, honest_of_unmirrored RunRecord.mirrored_commit (h id r hr).2.tidy.commit⟩
  unfold RunRecord.commit RunRecord.commitSteers
  dsimp only
  split_ifs <;> rfl

theorem rollbackRun (h : AllHonest given rest ledger) {taken : List RunSteer} {error : RunError} :
    AllHonest given rest (ledger.rollbackRun id taken error now fresh) := by
  unfold RunLedger.rollbackRun
  refine offer ?_ ?_
  · intro id' r hne hr
    rw [Table.getElem?_modify_eq, if_neg (Ne.symm hne)] at hr
    exact h id' r hr
  · intro r hr
    rw [Table.getElem?_modify_eq, if_pos rfl] at hr
    obtain ⟨old, hold, rfl⟩ := Option.map_eq_some_iff.mp hr
    have hid : (old.rollback taken error now).id = old.id := by
      unfold RunRecord.rollback RunRecord.revertSteers
      split_ifs <;> rfl
    refine ⟨hid.trans (h id old hold).1, fun hne => absurd rfl hne, fun _ => ?_⟩
    exact honest_of_unmirrored (RunRecord.unmirrored_steersToSendAgain rfl) RunRecord.tidy_steersToSendAgain

theorem unmirrored_handed {left : SteerLeftovers} {openSlots : ℕ} {bound : List RunSteer} {contents : List SteerContent} :
    ∀ r ∈ handOnLoop (fun i => handedRun (fresh i) left bound now) left.stopped now 0 openSlots contents,
      r.mirrored = false ∧ r.Tidy :=
  forall_handOnLoop (fun _ _ _ => ⟨rfl, RunRecord.tidy_of_archive rfl⟩)
    fun _ _ _ _ => ⟨rfl, (RunRecord.tidy_of_archive rfl).finish⟩

theorem handOn (h : AllHonest given rest ledger) {agents : List String} {left : SteerLeftovers} {openSlots : ℕ}
    (hactive : ∀ r, ledger[left.runId]? = some r → r.status.isTerminal = false) :
    AllHonest given rest (handOnSteers ledger agents left openSlots now fresh) := by
  unfold handOnSteers
  cases hid : ledger[left.runId]? with
  | none =>
    simp only [Option.filter_none, Option.map_none, Option.getD_none]
    unfold takeLeftoverSteers
    rw [hid]
    dsimp only
    split_ifs
    · exact h
    · exact h.foldl_add unmirrored_handed
  | some r =>
    obtain ⟨hkey, hr⟩ := h left.runId r hid
    have hm := hr.unmirrored (hactive r hid)
    cases hhelper : r.asyncHelper with
    | some helper =>
      have hsome : (some r).filter (fun r : RunRecord => r.asyncHelper.isSome) = some r := by
        rw [Option.filter_some, hhelper]
        rfl
      rw [hsome]
      dsimp only
      have hread : (r.noteSteersRead left.taken).Tidy := hr.tidy
      have hkeeps : r.Keeps (r.noteSteersRead left.taken) := fun hm => ⟨hm, rfl⟩
      refine insert_same (fun id' r' _ hr' => h id' r' hr') ?_
        (hr.keeps (hkeeps.trans (RunRecord.keeps_archive hread left.taken)) (RunRecord.tidy_archive hread left.taken))
      unfold RunRecord.archiveHelperSteersExcept
      split <;> exact hkey
    | none =>
      have hnone : (some r).filter (fun r : RunRecord => r.asyncHelper.isSome) = none := by
        rw [Option.filter_some, hhelper]
        rfl
      rw [hnone]
      dsimp only
      unfold takeLeftoverSteers
      rw [hid]
      dsimp only
      have hkept : AllHonest given rest (ledger.insert left.runId (r.keepTaken left.taken)) := by
        refine insert_same (fun id' r' _ hr' => h id' r' hr') hkey (honest_of_unmirrored hm ?_)
        exact hr.tidy.of_sub rfl fun s hs => (List.mem_filter.mp hs).1
      split_ifs
      · exact hkept
      · exact hkept.foldl_add unmirrored_handed
theorem restored {records : List RunRecord} {fresh : String → ℕ → String} {agents pins : List String}
    (h : ∀ r ∈ records, Honest given (rest r.id) r) :
    AllHonest given rest (RunLedger.restoredWithPins fresh records agents now pins) := by
  unfold RunLedger.restoredWithPins
  refine prune ?_ now pins
  have hloop : ∀ ledger : RunLedger, AllHonest given rest ledger →
      AllHonest given rest (records.foldl (RunLedger.restoreRecord fresh agents now) ledger) := by
    induction records with
    | nil => exact fun _ h => h
    | cons r records ih =>
      obtain ⟨hr, hrest⟩ := List.forall_mem_cons.mp h
      intro ledger hledger
      refine ih hrest _ ?_
      unfold RunLedger.restoreRecord
      split_ifs
      · refine (hledger.foldl_add fun x hx => ?_).add ?_
        · obtain ⟨_, _, i, steer, rfl⟩ := mem_sentAgain hx
          exact ⟨rfl, (RunRecord.tidy_of_archive rfl).finish⟩
        · have hid : (r.restarted (fresh r.id) now).id = r.id := id_restarted
          have hrestarted : RunRecord.Keeps r (r.restarted (fresh r.id) now) := RunRecord.keeps_restarted hr.tidy
          have hkept := hr.keeps hrestarted RunRecord.tidy_restarted
          rwa [hid]
      · exact hledger
  exact hloop ∅ empty

end AllHonest

/-! ## Marks -/

section

variable [DecidableEq ρ] {written : List (Copy ρ)}

theorem getElem?_markMirrored (acc : RunLedger × ℕ) (hr : (written.foldl (RunLedger.markOne rest) acc).1[id]? = some r') :
    ∃ r, acc.1[id]? = some r ∧ (r' = r ∨ r' = { r with mirrored := true }) := by
  induction written generalizing acc with
  | nil => exact ⟨r', hr, .inl rfl⟩
  | cons w written ih =>
    obtain ⟨r, hone, hflag⟩ := ih (RunLedger.markOne rest acc w) hr
    unfold RunLedger.markOne at hone
    cases hw : acc.1[w.1.id]? with
    | none =>
      rw [hw] at hone
      exact ⟨r, hone, hflag⟩
    | some current =>
      rw [hw] at hone
      dsimp only at hone
      split_ifs at hone
      · dsimp only at hone
        rw [Table.getElem?_insert_eq] at hone
        by_cases hid : w.1.id = id
        · rw [if_pos hid, Option.some.injEq] at hone
          subst hone
          refine ⟨current, hid ▸ hw, .inr ?_⟩
          rcases hflag with rfl | rfl
          · rfl
          · rfl
        · rw [if_neg hid] at hone
          exact ⟨r, hone, hflag⟩
      · exact ⟨r, hone, hflag⟩

theorem AllHonest.mark (h : AllHonest given rest ledger) (hw : ∀ w ∈ written, w.1.status.isTerminal = true ∧ w ∈ given) :
    AllHonest given rest (ledger.markMirrored rest written).1 := by
  unfold RunLedger.markMirrored
  have hloop : ∀ acc : RunLedger × ℕ, AllHonest given rest acc.1 →
      AllHonest given rest (written.foldl (RunLedger.markOne rest) acc).1 := by
    induction written with
    | nil => exact fun _ h => h
    | cons w written ih =>
      obtain ⟨⟨hterminal, hgiven⟩, hrest⟩ := List.forall_mem_cons.mp hw
      intro acc hacc
      refine ih hrest _ ?_
      unfold RunLedger.markOne
      cases hcurrent : acc.1[w.1.id]? with
      | none => exact hacc
      | some current =>
        dsimp only
        split_ifs with hsame
        · simp only [Bool.and_eq_true, Bool.not_eq_true', decide_eq_true_eq] at hsame
          obtain ⟨_, heq⟩ := hsame
          obtain ⟨hid, hhonest⟩ := hacc w.1.id current hcurrent
          have hrecord : current = w.1 := congrArg Prod.fst heq
          refine AllHonest.insert_same (fun id' r _ hr => hacc id' r hr) hid ?_
          refine { saved := fun _ => ⟨w, hgiven, ?_, ?_⟩, settled := fun _ => ?_, tidy := hhonest.tidy }
          · rw [← hrecord]
            rfl
          · exact (congrArg Prod.snd heq).symm
          · rw [hrecord]
            exact hterminal
        · exact hacc
  exact hloop (ledger, 0) h

end

/-! ## Undo -/

/-- What a writer keeps to undo its change: the record as it was, which differs from the present one where the undo writes. -/
structure Undoable (given : List (Copy ρ)) (ledger : RunLedger) (old : Copy ρ) : Prop where
  honest : Honest given old.2 old.1
  same : ∀ r, ledger[old.1.id]? = some r → (r.setBack old.1).content = old.1.content

theorem Undoable.mono {old : Copy ρ} (h : Undoable given ledger old) (hg : ∀ w ∈ given, w ∈ given') :
    Undoable given' ledger old := ⟨h.honest.mono hg, h.same⟩

theorem Undoable.change {old : Copy ρ} {ledger' : RunLedger} (h : Undoable given ledger old)
    (hc : ∀ r', ledger'[old.1.id]? = some r' → ∃ r, ledger[old.1.id]? = some r ∧
      (r'.setBack old.1).content = (r.setBack old.1).content) : Undoable given ledger' old where
  honest := h.honest
  same := by
    intro r' hr'
    obtain ⟨r, hr, heq⟩ := hc r' hr'
    exact heq.trans (h.same r hr)

theorem Undoable.modify {old : Copy ρ} {f : RunRecord → RunRecord} (h : Undoable given ledger old)
    (hf : ∀ r, ((f r).setBack old.1).content = (r.setBack old.1).content) : Undoable given (ledger.modify id f) old := by
  refine h.change fun r' hr' => ?_
  rw [Table.getElem?_modify_eq] at hr'
  by_cases heq : id = old.1.id
  · rw [if_pos heq] at hr'
    obtain ⟨r, hr, rfl⟩ := Option.map_eq_some_iff.mp hr'
    exact ⟨r, heq ▸ hr, hf r⟩
  · rw [if_neg heq] at hr'
    exact ⟨r', hr', rfl⟩

namespace Mirror

variable {s : Mirror ρ}

/-- The records of the ledger, of the last save and of what is kept for an undo are honest, and what is to be marked was
given. -/
structure Truthful (s : Mirror ρ) : Prop where
  ledger : AllHonest s.given s.rest s.ledger
  saved : ∀ r ∈ s.journal.saved, Honest s.given (s.savedRest r.id) r
  reads : ∀ b ∈ s.reads, ∀ w ∈ b, w.1.status.isTerminal = true
  writes : ∀ b ∈ s.writes, ∀ w ∈ b, w.1.status.isTerminal = true ∧ w ∈ s.given
  attempts : ∀ old ∈ s.attempts, Undoable s.given s.ledger old
  removed : ∀ old ∈ s.removed, Honest s.given old.2 old.1

theorem truthful_init (rest : String → ρ) : Truthful (init rest) where
  ledger := AllHonest.empty
  saved := fun _ hr => absurd hr List.not_mem_nil
  reads := fun _ hb => absurd hb List.not_mem_nil
  writes := fun _ hb => absurd hb List.not_mem_nil
  attempts := fun _ hold => absurd hold List.not_mem_nil
  removed := fun _ hold => absurd hold List.not_mem_nil

theorem Truthful.withLedger (h : Truthful s) (hidle : s.attempts = []) {ledger : RunLedger}
    (hl : AllHonest s.given s.rest ledger) : Truthful (s.withLedger ledger) :=
  { h with
    ledger := hl
    attempts := by
      intro old hold
      have hnil : old ∈ s.attempts := hold
      rw [hidle] at hnil
      cases hnil }

theorem Truthful.setRest (h : Truthful s) (hidle : s.attempts = []) {ledger : RunLedger} {id : String}
    (hl : AllHonest s.given (Function.update s.rest id x) ledger) : Truthful ((s.withLedger ledger).setRest id x) :=
  { h with
    ledger := hl
    attempts := by
      intro old hold
      have hnil : old ∈ s.attempts := hold
      rw [hidle] at hnil
      cases hnil }

theorem Truthful.cleared (h : Truthful s) (hidle : s.attempts = []) {id : String} {f : RunRecord → RunRecord}
    (hid : ∀ r, (f r).id = r.id) (hm : ∀ r, (f r).mirrored = false) (ht : ∀ r, r.Tidy → (f r).Tidy) :
    Truthful ((s.change id f).setRest id x) := by
  refine h.setRest hidle (h.ledger.modify fun r hr => ⟨hid r, ?_⟩)
  exact honest_of_unmirrored (hm r) (ht r (h.ledger id r hr).2.tidy)

theorem Truthful.quiet (h : Truthful s) (hidle : s.attempts = []) {id : String} {f : RunRecord → RunRecord}
    (hid : ∀ r, (f r).id = r.id) (hm : ∀ r, (f r).mirrored = r.mirrored) (ht : ∀ r, r.Tidy → (f r).Tidy)
    (hactive : ∀ r, s.ledger[id]? = some r → r.status.isTerminal = false) :
    Truthful ((s.change id f).setRest id x) := by
  refine h.setRest hidle (h.ledger.modify fun r hr => ⟨hid r, ?_⟩)
  have hhonest := (h.ledger id r hr).2
  exact honest_of_unmirrored ((hm r).trans (hhonest.unmirrored (hactive r hr))) (ht r hhonest.tidy)

theorem mem_copies {records : List RunRecord} {w : Copy ρ} (hw : w ∈ s.copies records) : w.1 ∈ records ∧ w.2 = s.rest w.1.id := by
  unfold copies at hw
  obtain ⟨r, hr, rfl⟩ := List.mem_map.mp hw
  exact ⟨hr, rfl⟩

theorem mem_unmirroredTerminal {ledger : RunLedger} {live : List String} {limit : ℕ}
    (hr : r ∈ ledger.unmirroredTerminal live limit) : r ∈ ledger.records ∧ r.status.isTerminal = true ∧ r.mirrored = false := by
  unfold RunLedger.unmirroredTerminal at hr
  have hmem := (List.mergeSort_perm _ _).mem_iff.mp (List.mem_of_mem_take hr)
  simp only [List.mem_filter, Bool.and_eq_true, Bool.not_eq_true'] at hmem
  exact ⟨hmem.1, hmem.2.1.1, hmem.2.1.2⟩

/-! ### The undo of a writer -/

def frame (s : Mirror ρ) : List (Copy ρ) × List RunRecord × (String → ρ) × List (List (Copy ρ)) × List (List (Copy ρ)) :=
  (s.given, s.journal.saved, s.savedRest, s.reads, s.writes)

theorem Truthful.undone {s' : Mirror ρ} (h : Truthful s) (hf : s'.frame = s.frame)
    (hl : AllHonest s.given s'.rest s'.ledger) (hr : ∀ old ∈ s'.removed, Honest s.given old.2 old.1) :
    Truthful { s' with attempts := [] } := by
  unfold frame at hf
  simp only [Prod.mk.injEq] at hf
  obtain ⟨hgiven, hsaved, hrest, hreads, hwrites⟩ := hf
  refine { ledger := ?_, saved := ?_, reads := ?_, writes := ?_, attempts := ?_, removed := ?_ }
  · show AllHonest s'.given s'.rest s'.ledger
    rwa [hgiven]
  · show ∀ r ∈ s'.journal.saved, Honest s'.given (s'.savedRest r.id) r
    rw [hgiven, hsaved, hrest]
    exact h.saved
  · show ∀ b ∈ s'.reads, ∀ w ∈ b, w.1.status.isTerminal = true
    rw [hreads]
    exact h.reads
  · show ∀ b ∈ s'.writes, ∀ w ∈ b, w.1.status.isTerminal = true ∧ w ∈ s'.given
    rw [hgiven, hwrites]
    exact h.writes
  · exact fun _ hold => absurd hold List.not_mem_nil
  · show ∀ old ∈ s'.removed, Honest s'.given old.2 old.1
    rwa [hgiven]

theorem setBack_setBack (r : RunRecord) (old old' : RunRecord) :
    ((r.setBack old).setBack old').content = (r.setBack old').content := rfl

theorem allHonest_revert (olds : List (Copy ρ)) (s : Mirror ρ) (hl : AllHonest s.given s.rest s.ledger)
    (ho : ∀ old ∈ olds, Undoable s.given s.ledger old) :
    AllHonest s.given (olds.foldl revertOne s).rest (olds.foldl revertOne s).ledger := by
  induction olds generalizing s with
  | nil => exact hl
  | cons old olds ih =>
    obtain ⟨hold, hrest⟩ := List.forall_mem_cons.mp ho
    rw [List.foldl_cons]
    refine ih (s.revertOne old) ?_ ?_
    · refine AllHonest.modify hl fun r hr => ⟨rfl, ?_⟩
      have hcontent := hold.same r hr
      refine hold.honest.keeps (fun hm => ⟨hm, hcontent⟩) (hold.honest.tidy.of_content hcontent)
    · intro old' hold'
      exact (hrest old' hold').modify fun r => setBack_setBack r old.1 old'.1

theorem allHonest_putBack (olds : List (Copy ρ)) (s : Mirror ρ) (hl : AllHonest s.given s.rest s.ledger)
    (ho : ∀ old ∈ olds, Honest s.given old.2 old.1) :
    AllHonest s.given (olds.foldl putBackOne s).rest (olds.foldl putBackOne s).ledger := by
  induction olds generalizing s with
  | nil => exact hl
  | cons old olds ih =>
    obtain ⟨hold, hrest⟩ := List.forall_mem_cons.mp ho
    rw [List.foldl_cons]
    exact ih (s.putBackOne old) (AllHonest.insert (fun id' r _ hr => hl id' r hr) rfl hold) hrest

theorem Truthful.attempt (h : Truthful s) {id : String} {recovery : Option RecoveryRecord}
    {completion : HelperCompletionState} (hr : s.ledger[id]? = some r) :
    Truthful { (s.change id fun r => r.claim recovery completion).setRest id x with
      attempts := s.attempts ++ [(r, s.rest id)] } := by
  have hclaimed : AllHonest s.given (Function.update s.rest id x) (s.ledger.modify id fun r => r.claim recovery completion) :=
    h.ledger.modify fun r' hr' => ⟨rfl, honest_of_unmirrored rfl (h.ledger id r' hr').2.tidy.claimed⟩
  refine { h with ledger := hclaimed, attempts := ?_ }
  intro old hold
  rcases List.mem_append.mp hold with hold | hold
  · exact (h.attempts old hold).modify fun _ => rfl
  · rw [List.mem_singleton] at hold
    subst hold
    obtain ⟨hid, hhonest⟩ := h.ledger id r hr
    refine ⟨hhonest, fun r' hr' => ?_⟩
    have hr'' : (s.ledger.modify id fun r => r.claim recovery completion)[r.id]? = some r' := hr'
    rw [Table.getElem?_modify_eq, if_pos hid.symm, hr, Option.map_some, Option.some.injEq] at hr''
    subst hr''
    rfl

/-! ### One event -/

section

variable [DecidableEq ρ] {agents : List String}

theorem Truthful.op (h : Truthful s) (op : Op) (hp : Permitted s (.op op)) : Truthful (step agents s (.op op)) := by
  have hsnapshot : ∀ ledger : RunLedger, AllHonest s.given s.rest ledger →
      ∀ r ∈ ledger.snapshotRecords agents, Honest s.given (s.rest r.id) r := by
    intro ledger hl r hr
    have hmem := (List.mem_filter.mp (RunLedger.snapshotRecords_perm.mem_iff.mp hr)).1
    exact hl.mem_records hmem
  cases op with
  | begin record =>
    obtain ⟨hidle, hm, harchive⟩ := hp
    refine h.withLedger hidle (h.ledger.add (honest_of_unmirrored hm (RunRecord.tidy_of_archive ?_)))
    unfold RunRecord.archive
    cases hhelper : record.asyncHelper with
    | none => rfl
    | some helper => exact harchive helper hhelper
  | start runId now =>
    refine h.withLedger hp (h.ledger.modify_same fun r hr => ⟨rfl, honest_of_unmirrored rfl ?_⟩)
    exact (h.ledger runId r hr).2.tidy.of_sub rfl fun _ hs => hs
  | accept runId steer =>
    obtain ⟨hidle, hjoin⟩ := hp
    have hl : AllHonest s.given s.rest (s.ledger.join runId steer) := by
      refine h.ledger.modify_same fun r hr => ⟨rfl, ?_⟩
      obtain ⟨hactive, hnew⟩ := hjoin r hr
      have hhonest := (h.ledger runId r hr).2
      refine honest_of_unmirrored (hhonest.unmirrored hactive) ⟨hhonest.tidy.1, fun waiting hwaiting u hu => ?_⟩
      rcases List.mem_append.mp hwaiting with hwaiting | hwaiting
      · exact hhonest.tidy.2 waiting hwaiting u hu
      · rw [List.mem_singleton] at hwaiting
        subst hwaiting
        have hu' : u ∈ r.archive := hu
        unfold RunRecord.archive at hu'
        cases hhelper : r.asyncHelper with
        | none =>
          rw [hhelper] at hu'
          cases hu'
        | some helper =>
          rw [hhelper] at hu'
          exact hnew helper hhelper u hu'
    exact { h.withLedger hidle hl with saved := hsnapshot _ hl }
  | handOn left openSlots now fresh => exact h.withLedger hp.1 (h.ledger.handOn hp.2)
  | commit runId taken outcome now pins => exact h.withLedger hp h.ledger.commitRun
  | rollback runId taken error now fresh => exact h.withLedger hp h.ledger.rollbackRun
  | save => exact { h with saved := hsnapshot _ h.ledger }
  | restart now pins fresh =>
    exact
      { ledger := AllHonest.restored h.saved
        saved := h.saved
        reads := fun _ hb => absurd hb List.not_mem_nil
        writes := fun _ hb => absurd hb List.not_mem_nil
        attempts := fun _ hold => absurd hold List.not_mem_nil
        removed := fun _ hold => absurd hold List.not_mem_nil }

theorem Truthful.step (h : Truthful s) (e : Event ρ) (hp : Permitted s e) : Truthful (step agents s e) := by
  cases e with
  | op op => exact h.op op hp
  | finish runId status error now rest =>
    refine h.cleared hp (fun r => ?_) (fun r => rfl) fun r ht => ht.finish
    rfl
  | offer runId now fresh =>
    refine h.withLedger hp (AllHonest.offer (fun id' r _ hr => h.ledger id' r hr) fun r hr => ?_)
    obtain ⟨hid, hhonest⟩ := h.ledger runId r hr
    exact ⟨hid, fun _ => hhonest,
      fun _ => hhonest.keeps (RunRecord.keeps_steersToSendAgain hhonest.tidy) RunRecord.tidy_steersToSendAgain⟩
  | refuse runId key =>
    refine h.withLedger hp.1 (h.ledger.modify_same fun r hr => ⟨rfl, ?_⟩)
    have hhonest := (h.ledger runId r hr).2
    refine honest_of_unmirrored (hhonest.unmirrored (hp.2 r hr)) ?_
    exact hhonest.tidy.of_sub rfl fun _ hs => (List.mem_filter.mp hs).1
  | edit runId edit rest =>
    exact h.cleared hp (fun _ => rfl) (fun _ => rfl) fun r ht => ht.assigned.of_sub rfl fun _ hs => hs
  | adjust runId status edit rest =>
    obtain ⟨hidle, _, hactive⟩ := hp
    exact h.quiet hidle (fun _ => rfl) (fun _ => rfl) (fun r ht => ht.assigned.of_sub rfl fun _ hs => hs) hactive
  | publish runId finished =>
    have hl : AllHonest s.given s.rest (s.change runId fun r =>
        { r with terminalPublished := r.status.isTerminal && decide (r.status = finished) }).ledger := by
      refine h.ledger.modify_same fun r hr => ⟨rfl, ?_⟩
      have hhonest := (h.ledger runId r hr).2
      exact hhonest.keeps (fun hm => ⟨hm, rfl⟩) (hhonest.tidy.of_sub rfl fun _ hs => hs)
    exact { h with ledger := hl, attempts := fun old hold => (h.attempts old hold).modify fun _ => rfl }
  | attempt runId recovery completion rest =>
    cases hr : s.ledger[runId]? with
    | none =>
      simp only [Mirror.step, hr]
      exact h
    | some r =>
      simp only [Mirror.step, hr]
      exact h.attempt hr
  | revert =>
    have hframe : (s.attempts.foldl revertOne s).frame = s.frame :=
      foldl_keeps (f := revertOne) (g := frame) (fun _ _ => rfl) s.attempts s
    have hremoved : (s.attempts.foldl revertOne s).removed = s.removed :=
      foldl_keeps (f := revertOne) (g := Mirror.removed) (fun _ _ => rfl) s.attempts s
    refine h.undone hframe (allHonest_revert s.attempts s h.ledger h.attempts) ?_
    rw [hremoved]
    exact h.removed
  | keep => exact { h with attempts := fun _ hold => absurd hold List.not_mem_nil }
  | remove runIds =>
    have hl : AllHonest s.given s.rest (Table.eraseAll s.ledger runIds) :=
      h.ledger.sub fun _ _ hr => Table.getElem?_of_eraseAll hr
    refine { h.withLedger hp hl with removed := ?_ }
    intro old hold
    obtain ⟨hold, hrest⟩ := mem_copies hold
    obtain ⟨id, _, hid⟩ := List.mem_filterMap.mp hold
    rw [hrest]
    exact h.ledger.mem_records (RunLedger.mem_records.mpr ⟨id, hid⟩)
  | putBack =>
    have hframe : (s.removed.foldl putBackOne s).frame = s.frame :=
      foldl_keeps (f := putBackOne) (g := frame) (fun _ _ => rfl) s.removed s
    have hattempts : (s.removed.foldl putBackOne s).attempts = [] :=
      (foldl_keeps (f := putBackOne) (g := Mirror.attempts) (fun _ _ => rfl) s.removed s).trans hp
    have hundone := @Truthful.undone _ _ { s.removed.foldl putBackOne s with removed := [] } h hframe
      (allHonest_putBack s.removed s h.ledger h.removed) fun _ hold => absurd hold List.not_mem_nil
    refine { hundone with attempts := ?_ }
    intro old hold
    have hnil : old ∈ (s.removed.foldl putBackOne s).attempts := hold
    rw [hattempts] at hnil
    cases hnil
  | prune now pins =>
    refine h.withLedger hp ?_
    rw [RunLedger.pruneLoop_eq h.ledger.keyed]
    exact h.ledger.prune now pins
  | read liveAgents limit =>
    refine { h with reads := ?_ }
    intro b hb
    rcases List.mem_cons.mp hb with rfl | hb
    · intro w hw
      exact (mem_unmirroredTerminal (mem_copies hw).1).2.1
    · exact h.reads b hb
  | write batch =>
    simp only [Mirror.step]
    split_ifs with hread
    · have hgiven : ∀ w ∈ s.given, w ∈ batch ++ s.given := fun w hw => List.mem_append_right _ hw
      refine { ledger := h.ledger.mono hgiven, saved := fun r hr => (h.saved r hr).mono hgiven, reads := h.reads, writes := ?_
               attempts := fun old hold => (h.attempts old hold).mono hgiven
               removed := fun old hold => (h.removed old hold).mono hgiven }
      intro b hb w hw
      rcases List.mem_cons.mp hb with rfl | hb
      · exact ⟨h.reads b hread w hw, List.mem_append_left _ hw⟩
      · exact ⟨(h.writes b hb w hw).1, hgiven w (h.writes b hb w hw).2⟩
    · exact h
  | mark batch =>
    simp only [Mirror.step]
    split_ifs with hwritten
    · refine { h with ledger := h.ledger.mark (h.writes batch hwritten), attempts := ?_ }
      intro old hold
      refine (h.attempts old hold).change fun r' hr' => ?_
      obtain ⟨r, hr, hflag⟩ := getElem?_markMirrored (s.ledger, 0) hr'
      refine ⟨r, hr, ?_⟩
      rcases hflag with rfl | rfl
      · rfl
      · rfl
    · exact h

theorem truthful_of_reaches {rest : String → ρ} (h : Reaches (Mirror.step agents) Permitted (init rest) s) : Truthful s :=
  h.invariant (truthful_init rest) fun _ e _ ht hp => ht.step e hp

end

end Mirror

/-! ## The retention -/

namespace RunLedger

theorem newer_iff {a b : RunRecord} :
    newer a b = true ↔ finishedAt b < finishedAt a ∨ (finishedAt b = finishedAt a ∧ b.id < a.id) := by
  have hlex : compare (finishedAt b, b.id) (finishedAt a, a.id) =
      (compare (finishedAt b) (finishedAt a)).then (compare b.id a.id) := rfl
  have hid : compare b.id a.id = .lt ↔ b.id < a.id := compareOfLessAndEq_eq_lt
  unfold newer
  rw [hlex, Ordering.isLT_iff_eq_lt, Ordering.then_eq_lt, hid, Std.LawfulEqOrd.compare_eq_iff_eq, Std.compare_eq_lt]

def Prunable (pins : List String) (r : RunRecord) : Prop :=
  r.status.isTerminal = true ∧ r.pendingSteers = [] ∧ r.id ∉ pins

instance (pins : List String) (r : RunRecord) : Decidable (Prunable pins r) :=
  inferInstanceAs (Decidable (_ ∧ _ ∧ _))

/-- A run of the same agent that outranks another. -/
def Outranks (pins : List String) (other r : RunRecord) : Prop :=
  other.agentId = r.agentId ∧ Prunable pins other ∧
    (finishedAt r < finishedAt other ∨ (finishedAt r = finishedAt other ∧ r.id < other.id))

instance (pins : List String) (other r : RunRecord) : Decidable (Outranks pins other r) :=
  inferInstanceAs (Decidable (_ ∧ _ ∧ _))

/-- What leaves: a finished run without steers that the store has and nothing pins, and that is older than a day or has fifty
newer ones before it. -/
structure Leaves (ledger : RunLedger) (pins : List String) (now : ℕ) (r : RunRecord) : Prop where
  prunable : Prunable pins r
  mirrored : r.mirrored = true
  late : finishedAt r + terminalRunRetentionMs < now ∨
    maxTerminalRunsPerAgent ≤ ledger.records.countP fun other => decide (Outranks pins other r)

variable {pins : List String}

theorem expired_iff : expired ledger now pins r = true ↔ Leaves ledger pins now r := by
  have hcount : ((retained ledger pins r.agentId).countP fun other => newer other r) =
      ledger.records.countP fun other => decide (Outranks pins other r) := by
    unfold retained
    rw [List.countP_filter]
    refine List.countP_congr fun other _ => ?_
    rw [decide_eq_true_iff, Bool.and_eq_true, newer_iff]
    unfold Outranks Prunable RunRecord.isPrunable
    simp only [Bool.and_eq_true, beq_iff_eq, Bool.not_eq_true', List.contains_eq_mem, decide_eq_false_iff_not,
      List.isEmpty_iff]
    tauto
  unfold expired RunRecord.isPrunable
  rw [hcount]
  simp only [Bool.and_eq_true, Bool.or_eq_true, Bool.not_eq_true', List.contains_eq_mem, decide_eq_false_iff_not,
    decide_eq_true_eq, List.isEmpty_iff]
  constructor
  · rintro ⟨⟨⟨⟨hterminal, hsteers⟩, hpin⟩, hmirrored⟩, hlate⟩
    refine ⟨⟨hterminal, hsteers, hpin⟩, hmirrored, ?_⟩
    rcases hlate with hrank | hlate
    · exact .inr hrank
    · left
      omega
  · rintro ⟨⟨hterminal, hsteers, hpin⟩, hmirrored, hlate⟩
    refine ⟨⟨⟨⟨hterminal, hsteers⟩, hpin⟩, hmirrored⟩, ?_⟩
    rcases hlate with hlate | hrank
    · right
      omega
    · exact .inl hrank

theorem getElem?_pruneLoop_eq_none (hk : Keyed ledger) (hr : ledger[id]? = some r) :
    (ledger.pruneLoop now pins)[id]? = none ↔ Leaves ledger (pinned ledger.records ++ pins) now r := by
  rw [pruneLoop_eq hk, getElem?_prune, hr, ← expired_iff, Option.filter_some]
  cases expired ledger now (pinned ledger.records ++ pins) r <;> simp

end RunLedger

/-! ## Main result -/

section

variable [DecidableEq ρ] {agents : List String} {s : Mirror ρ}

/-- **Pruning and mirroring never drop an unsaved run.**  A prune removes exactly the records that leave and changes no other;
again at the same time it removes nothing; and in every state reached the store was given the content of each mirrored
record. -/
theorem no_run_dropped_unsaved (hk : RunLedger.Keyed ledger) (now : ℕ) (pins : List String)
    (hs : Reaches (Mirror.step agents) Mirror.Permitted (Mirror.init rest) s) :
    (∀ (id : String) (r : RunRecord), ledger[id]? = some r →
      ((ledger.pruneLoop now pins)[id]? = none ↔ RunLedger.Leaves ledger (pinned ledger.records ++ pins) now r)) ∧
    (∀ (id : String) (r : RunRecord), (ledger.pruneLoop now pins)[id]? = some r → ledger[id]? = some r) ∧
    RunLedger.pruneLoop (ledger.pruneLoop now pins) now pins = ledger.pruneLoop now pins ∧
    ∀ r ∈ s.ledger.records, r.mirrored = true → Given s.given (s.rest r.id) r := by
  refine ⟨fun id r hr => RunLedger.getElem?_pruneLoop_eq_none hk hr, ?_, ?_, ?_⟩
  · intro id r hr
    rw [RunLedger.pruneLoop_eq hk] at hr
    exact (RunLedger.prune_eq_some.mp hr).1
  · rw [RunLedger.pruneLoop_eq hk, RunLedger.pruneLoop_eq hk.prune]
    exact RunLedger.prune_prune hk
  · intro r hr hm
    exact ((Mirror.truthful_of_reaches hs).ledger.mem_records hr).saved hm

end

namespace Sample

def finishedRun : RunRecord :=
  (RunRecord.queuedSteer "run" "agent" "chat"
    { idempotencyKey := "key", text := "hello", attachmentIds := [], skill := none, acceptedAtMs := 1 }).finish
      .completed none 5

def mirroredRun : RunRecord := { finishedRun with mirrored := true }

def flushed : Mirror Unit :=
  run (Mirror.step ["agent"]) (Mirror.init fun _ => ())
    [.op (.begin finishedRun), .read ["agent"] 10, .write [(finishedRun, ())], .mark [(finishedRun, ())]]

theorem reaches_flushed : Reaches (Mirror.step ["agent"]) Mirror.Permitted (Mirror.init fun _ => ()) flushed := by
  refine .next (Event.mark _) (.next (Event.write _) (.next (Event.read _ _) (.next (Event.op (.begin finishedRun)) .start ?_)
    ?_) ?_) ?_
  · refine ⟨rfl, rfl, fun h hh => ?_⟩
    cases hh
  · trivial
  · trivial
  · trivial

theorem getElem?_flushed : flushed.ledger["run"]? = some mirroredRun := by decide +kernel

theorem keyed_flushed : RunLedger.Keyed flushed.ledger := (Mirror.truthful_of_reaches reaches_flushed).ledger.keyed

/-- The flush marks the run, which the store was given, and a day later it leaves. -/
theorem no_run_dropped_unsaved_flushed :
    (flushed.ledger.pruneLoop (terminalRunRetentionMs + 6) [])["run"]? = none ∧
      Given flushed.given () mirroredRun := by
  obtain ⟨hleaves, _, _, hgiven⟩ :=
    no_run_dropped_unsaved keyed_flushed (terminalRunRetentionMs + 6) [] reaches_flushed
  refine ⟨(hleaves "run" mirroredRun getElem?_flushed).mpr ⟨?_, rfl, .inl ?_⟩, ?_⟩
  · have hpins : pinned flushed.ledger.records = [] := by decide +kernel
    rw [hpins]
    exact ⟨rfl, rfl, List.not_mem_nil⟩
  · decide +kernel
  · exact hgiven mirroredRun (RunLedger.mem_records.mpr ⟨"run", getElem?_flushed⟩) rfl

end Sample

end AnimaCore.Runs
