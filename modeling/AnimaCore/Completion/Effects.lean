import AnimaCore.Completion

/-!
# AnimaCore.Completion.Effects — what one call means and does

* `Step.Changes`, `Step.ReadsBack`, `Step.Gap`, `Step.Begins`, `Step.Prompts`: what a call means for a file or for the
  evidence as a whole.
* `FilesEffect`, `ChecksEffect`: everything a call can do to the files and to the checks; `nextAttempt_cases`,
  `overflow_of` and `prompted_cases` say the same of the counters and flags.
-/

namespace AnimaCore.Completion

open Lib

/-! ## What a call means -/

/-- The edit a call records, if its bounds are met. -/
def Step.edit (y : Step) : Option (CompletionFile × Bool × List String) :=
  match y.call with
  | .recordEdit file _ requiresCheck contracts =>
    if y.before.acceptsEdit file contracts then some (file, requiresCheck, contracts) else none
  | .observeAfter _ (.edited path requiresCheck) =>
    if y.before.acceptsEdit ("", path) [] then some (("", path), requiresCheck, []) else none
  | _ => none

/-- The call records an edit of `f`. -/
def Step.Edits (y : Step) (f : CompletionFile) : Prop := ∃ requiresCheck contracts, y.edit = some (f, requiresCheck, contracts)

/-- The call refreshes the tracked file `f` with another digest. -/
def Step.Refreshes (y : Step) (f : CompletionFile) : Prop :=
  ∃ digest cur, y.call = .refreshFile f digest ∧ y.before.files[f]? = some cur ∧ cur.digest ≠ boundedDigest digest

/-- The call records a change of `f`: an edit, or another digest. -/
def Step.Changes (y : Step) (f : CompletionFile) : Prop := y.Edits f ∨ y.Refreshes f

/-- The call reads `f` back as it is, through the checkpoint `c`. -/
def Step.ReadsBack (y : Step) (f : CompletionFile) (c : ℕ) : Prop :=
  (∃ digest, y.call = .readBack c f (some digest) ∧ y.before.files[f]?.map (·.digest) = some (some digest)) ∨
    ∃ path, f = ("", path) ∧ y.call = .observeAfter c (.readBack path)

/-- The call could not be recorded, or says so itself. -/
def Step.Gap (y : Step) : Prop :=
  y.call = .noteGap ∨
    (∃ file digest requiresCheck contracts, y.call = .recordEdit file digest requiresCheck contracts ∧
      y.before.acceptsEdit file contracts = false) ∨
    (∃ c path requiresCheck, y.call = .observeAfter c (.edited path requiresCheck) ∧
      y.before.acceptsEdit ("", path) [] = false) ∨
    ∃ contract files, y.call = .beginCheck contract files ∧ y.before.acceptsCheck contract files = false

/-- The call begins an attempt of `contract`. -/
def Step.Begins (y : Step) (contract : String) : Prop := ∃ files, y.call = .beginCheck contract files

/-- The calls that can change a counter: all but `checkpoint` and `take_feedback`. -/
def counted : ReviewCall → Bool
  | .checkpoint => false
  | .takeFeedback => false
  | _ => true

def countedCalls (h : List Step) : ℕ := h.countP fun y => counted y.call

def Step.Prompts (y : Step) : Prop := ∃ feedback, y.answer = .feedback (some feedback)

instance decidablePrompts (y : Step) : Decidable y.Prompts :=
  match h : y.answer with
  | .feedback (some feedback) => .isTrue ⟨feedback, h⟩
  | .feedback none => .isFalse fun ⟨_, hf⟩ => nomatch h.symm.trans hf
  | .done => .isFalse fun ⟨_, hf⟩ => nomatch h.symm.trans hf
  | .checkpoint _ => .isFalse fun ⟨_, hf⟩ => nomatch h.symm.trans hf
  | .attempt _ => .isFalse fun ⟨_, hf⟩ => nomatch h.symm.trans hf

/-! ## What a call does -/

variable {s : ReviewState} {c : ReviewCall} {f : CompletionFile}

/-- The step of a call on `s`. -/
def stepOf (s : ReviewState) (c : ReviewCall) : Step := { before := s, call := c, answer := (s.exec c).1 }

inductive FilesEffect (s : ReviewState) (c : ReviewCall) : Prop
  | edited (f : CompletionFile) (digest : Option String) (requiresCheck : Bool) (contracts : List String)
      (hedit : (stepOf s c).edit = some (f, requiresCheck, contracts))
      (hfiles : (s.exec c).2.files = s.files.insert f
        { revision := saturatingNext s.revision, digest, unread := true, requiresCheck, requiredContracts := contracts })
      (hrev : (s.exec c).2.revision = saturatingNext s.revision)
  | refreshed (f : CompletionFile) (digest : Option String) (cur : FileState) (hcall : (stepOf s c).Refreshes f)
      (hnot : ∀ g, ¬(stepOf s c).Edits g) (honly : ∀ g, (stepOf s c).Refreshes g → g = f) (hcur : s.files[f]? = some cur)
      (hfiles : (s.exec c).2.files = s.files.insert f
        { cur with digest, revision := saturatingNext s.revision, unread := true })
      (hrev : (s.exec c).2.revision = saturatingNext s.revision)
  | read (f : CompletionFile) (checkpoint : ℕ) (hread : (stepOf s c).ReadsBack f checkpoint)
      (hcp : s.revision = checkpoint) (hnot : ∀ g, ¬(stepOf s c).Changes g)
      (hfiles : (s.exec c).2.files = s.files.modify f fun cur => { cur with unread := false })
      (hrev : (s.exec c).2.revision = s.revision)
  | same (hnot : ∀ g, ¬(stepOf s c).Changes g) (hfiles : (s.exec c).2.files = s.files)
      (hrev : (s.exec c).2.revision = s.revision)

theorem not_changes_of (hedit : (stepOf s c).edit = none) (hrefresh : ∀ g, ¬(stepOf s c).Refreshes g) (g : CompletionFile) :
    ¬(stepOf s c).Changes g := by
  rintro (⟨_, _, he⟩ | hr)
  · rw [hedit] at he
    cases he
  · exact hrefresh g hr

theorem filesEffect_of_edit {file : CompletionFile} {digest : Option String} {requiresCheck : Bool}
    {contracts : List String} (hexec : (s.exec c).2 = s.recordEdit file digest requiresCheck contracts)
    (hedit : (stepOf s c).edit = if s.acceptsEdit file contracts then some (file, requiresCheck, contracts) else none)
    (hrefresh : ∀ g, ¬(stepOf s c).Refreshes g) : FilesEffect s c := by
  by_cases haccept : s.acceptsEdit file contracts = true
  · rw [if_pos haccept] at hedit
    refine .edited file (boundedDigest digest) requiresCheck contracts hedit ?_ ?_
    · rw [hexec, ReviewState.recordEdit, if_pos haccept]
    · rw [hexec, ReviewState.recordEdit, if_pos haccept]
  · rw [if_neg haccept] at hedit
    refine .same (not_changes_of hedit hrefresh) ?_ ?_
    · rw [hexec, ReviewState.recordEdit, if_neg haccept]
    · rw [hexec, ReviewState.recordEdit, if_neg haccept]

theorem not_refreshes (hcall : ∀ g digest, c ≠ .refreshFile g digest) (g : CompletionFile) : ¬(stepOf s c).Refreshes g := by
  rintro ⟨digest, _, hc, _⟩
  exact hcall g digest hc

theorem filesEffect_of_same (hfiles : (s.exec c).2.files = s.files) (hrev : (s.exec c).2.revision = s.revision)
    (hedit : (stepOf s c).edit = none) (hcall : ∀ g digest, c ≠ .refreshFile g digest) : FilesEffect s c :=
  .same (not_changes_of hedit (not_refreshes hcall)) hfiles hrev

theorem noteCommand_files (passed : Bool) :
    (s.noteCommand passed).files = s.files ∧ (s.noteCommand passed).revision = s.revision := by
  unfold ReviewState.noteCommand
  split_ifs <;> exact ⟨rfl, rfl⟩

theorem filesEffect_observe (checkpoint : ℕ) (observation : CompletionObservation) :
    FilesEffect s (.observeAfter checkpoint observation) := by
  have hcall : ∀ g digest, ReviewCall.observeAfter checkpoint observation ≠ .refreshFile g digest := by
    intro g digest h
    cases h
  cases observation with
  | edited path requiresCheck => exact filesEffect_of_edit rfl rfl (not_refreshes hcall)
  | readBack path =>
    by_cases hcp : checkpoint = s.revision
    · have hexec : (s.exec (.observeAfter checkpoint (.readBack path))).2 = s.markRead ("", path) := by
        simp [ReviewState.exec, ReviewState.observeAfter, hcp]
      refine .read ("", path) checkpoint (Or.inr ⟨path, rfl, rfl⟩) hcp.symm ?_ ?_ ?_
      · exact not_changes_of rfl (not_refreshes hcall)
      · rw [hexec]
        rfl
      · rw [hexec]
        rfl
    · have hexec : (s.exec (.observeAfter checkpoint (.readBack path))).2 = s := by
        simp [ReviewState.exec, ReviewState.observeAfter, hcp]
      exact filesEffect_of_same (by rw [hexec]) (by rw [hexec]) rfl hcall
  | commandFinished passed =>
    obtain ⟨hf, hr⟩ := noteCommand_files (s := s) passed
    refine filesEffect_of_same ?_ ?_ rfl hcall
    · simp only [ReviewState.exec, ReviewState.observeAfter]
      split_ifs
      · rfl
      · exact hf
    · simp only [ReviewState.exec, ReviewState.observeAfter]
      split_ifs
      · rfl
      · exact hr
  | verificationFinished passed =>
    obtain ⟨hf, hr⟩ := noteCommand_files (s := s) passed
    refine filesEffect_of_same ?_ ?_ rfl hcall
    · simp only [ReviewState.exec, ReviewState.observeAfter]
      split_ifs
      · rfl
      · exact hf
    · simp only [ReviewState.exec, ReviewState.observeAfter]
      split_ifs
      · rfl
      · exact hr
  | tasksSaved unfinished => exact filesEffect_of_same rfl rfl rfl hcall

theorem filesEffect_refresh (file : CompletionFile) (digest : Option String) : FilesEffect s (.refreshFile file digest) := by
  cases hcur : s.files[file]? with
  | none =>
    have hexec : (s.exec (.refreshFile file digest)).2 = s := by
      simp only [ReviewState.exec, ReviewState.refreshFile, hcur]
    refine .same (not_changes_of rfl ?_) (by rw [hexec]) (by rw [hexec])
    rintro g ⟨d, cur, hc, hget, _⟩
    cases hc
    have hget' : s.files[file]? = some cur := hget
    rw [hcur] at hget'
    cases hget'
  | some cur =>
    by_cases hsame : cur.digest = boundedDigest digest
    · have hexec : (s.exec (.refreshFile file digest)).2 = s := by
        simp only [ReviewState.exec, ReviewState.refreshFile, hcur, if_pos hsame]
      refine .same (not_changes_of rfl ?_) (by rw [hexec]) (by rw [hexec])
      rintro g ⟨d, cur', hc, hget, hne⟩
      cases hc
      have hget' : s.files[file]? = some cur' := hget
      rw [hcur] at hget'
      cases hget'
      exact hne hsame
    · refine .refreshed file (boundedDigest digest) cur ⟨digest, cur, rfl, hcur, hsame⟩ ?_ ?_ hcur ?_ ?_
      · rintro g ⟨_, _, he⟩
        cases he
      · rintro g ⟨d, cur', hc, _⟩
        cases hc
        rfl
      · simp only [ReviewState.exec, ReviewState.refreshFile, hcur, if_neg hsame]
      · simp only [ReviewState.exec, ReviewState.refreshFile, hcur, if_neg hsame]

theorem filesEffect_readBack (checkpoint : ℕ) (file : CompletionFile) (digest : Option String) :
    FilesEffect s (.readBack checkpoint file digest) := by
  have hcall : ∀ g d, ReviewCall.readBack checkpoint file digest ≠ .refreshFile g d := by
    intro g d h
    cases h
  by_cases hskip : checkpoint ≠ s.revision ∨ digest = none
  · have hexec : (s.exec (.readBack checkpoint file digest)).2 = s := by
      simp only [ReviewState.exec, ReviewState.readBack, if_pos hskip]
    exact filesEffect_of_same (by rw [hexec]) (by rw [hexec]) rfl hcall
  · by_cases hmatch : s.files[file]?.map (·.digest) = some digest
    · have hexec : (s.exec (.readBack checkpoint file digest)).2 = s.markRead file := by
        simp only [ReviewState.exec, ReviewState.readBack, if_neg hskip, if_pos hmatch]
      rw [not_or, not_not] at hskip
      obtain ⟨d, rfl⟩ := Option.ne_none_iff_exists'.mp hskip.2
      refine .read file checkpoint (Or.inl ⟨d, rfl, hmatch⟩) hskip.1.symm ?_ ?_ ?_
      · exact not_changes_of rfl (not_refreshes hcall)
      · rw [hexec]
        rfl
      · rw [hexec]
        rfl
    · have hexec : (s.exec (.readBack checkpoint file digest)).2 = s := by
        simp only [ReviewState.exec, ReviewState.readBack, if_neg hskip, if_neg hmatch]
      exact filesEffect_of_same (by rw [hexec]) (by rw [hexec]) rfl hcall

theorem beginCheck_files (contract : String) (files : List CompletionFile) :
    (s.beginCheck contract files).2.files = s.files ∧ (s.beginCheck contract files).2.revision = s.revision := by
  simp only [ReviewState.beginCheck]
  split_ifs <;> exact ⟨rfl, rfl⟩

theorem finishCheck_files (attempt : CompletionAttempt) (outcome : CompletionCheckOutcome) :
    (s.finishCheck attempt outcome).files = s.files ∧ (s.finishCheck attempt outcome).revision = s.revision := by
  unfold ReviewState.finishCheck
  split
  · split_ifs <;> exact ⟨rfl, rfl⟩
  · exact ⟨rfl, rfl⟩

theorem takeFeedback_files : s.takeFeedback.2.files = s.files ∧ s.takeFeedback.2.revision = s.revision := by
  simp only [ReviewState.takeFeedback]
  split_ifs <;> exact ⟨rfl, rfl⟩

theorem filesEffect (s : ReviewState) (c : ReviewCall) : FilesEffect s c := by
  cases c with
  | checkpoint => exact filesEffect_of_same rfl rfl rfl (by simp)
  | observeAfter checkpoint observation => exact filesEffect_observe checkpoint observation
  | recordEdit file digest requiresCheck contracts => exact filesEffect_of_edit rfl rfl (not_refreshes (by simp))
  | refreshFile file digest => exact filesEffect_refresh file digest
  | readBack checkpoint file digest => exact filesEffect_readBack checkpoint file digest
  | noteGap => exact filesEffect_of_same rfl rfl rfl (by simp)
  | beginCheck contract files =>
    obtain ⟨hf, hr⟩ := beginCheck_files (s := s) contract files
    exact filesEffect_of_same hf hr rfl (by simp)
  | finishCheck attempt outcome =>
    obtain ⟨hf, hr⟩ := finishCheck_files (s := s) attempt outcome
    exact filesEffect_of_same hf hr rfl (by simp)
  | takeFeedback => exact filesEffect_of_same takeFeedback_files.1 takeFeedback_files.2 rfl (by simp)

inductive ChecksEffect (s : ReviewState) (c : ReviewCall) : Prop
  | begun (contract : String) (files : List CompletionFile) (hcall : c = .beginCheck contract files)
      (hvalid : s.acceptsCheck contract files = true)
      (hchecks : (s.exec c).2.checks = s.checks.insert contract
        { attempt := (s.beginCheck contract files).1, outcome := .unknown, settled := false })
  | finished (attempt : CompletionAttempt) (outcome : CompletionCheckOutcome) (latest : CheckState)
      (settledAs : CompletionCheckOutcome) (hcall : c = .finishCheck attempt outcome)
      (hget : s.checks[attempt.contract]? = some latest) (hid : latest.attempt.id = attempt.id)
      (hopen : latest.settled = false) (hpass : settledAs = .passed → outcome = .passed)
      (hchecks : (s.exec c).2.checks = s.checks.insert attempt.contract
        { latest with outcome := settledAs, settled := true })
  | same (hbegin : ∀ contract files, c = .beginCheck contract files → s.acceptsCheck contract files = false)
      (hfinish : ∀ attempt outcome, c = .finishCheck attempt outcome → ∀ latest, s.checks[attempt.contract]? = some latest →
        latest.attempt.id = attempt.id → latest.settled = true)
      (hchecks : (s.exec c).2.checks = s.checks)

theorem checksEffect_of_same (hchecks : (s.exec c).2.checks = s.checks)
    (hbegin : ∀ contract files, c ≠ .beginCheck contract files)
    (hfinish : ∀ attempt outcome, c ≠ .finishCheck attempt outcome) : ChecksEffect s c :=
  .same (fun contract files h => absurd h (hbegin contract files))
    (fun attempt outcome h => absurd h (hfinish attempt outcome)) hchecks

theorem recordEdit_checks (file : CompletionFile) (digest : Option String) (requiresCheck : Bool)
    (contracts : List String) : (s.recordEdit file digest requiresCheck contracts).checks = s.checks := by
  unfold ReviewState.recordEdit
  split_ifs <;> rfl

theorem observeAfter_checks (checkpoint : ℕ) (observation : CompletionObservation) :
    (s.observeAfter checkpoint observation).checks = s.checks := by
  cases observation with
  | edited path requiresCheck => exact recordEdit_checks _ _ _ _
  | readBack path =>
    simp only [ReviewState.observeAfter]
    split_ifs <;> rfl
  | commandFinished passed =>
    simp only [ReviewState.observeAfter, ReviewState.noteCommand]
    split_ifs <;> rfl
  | verificationFinished passed =>
    simp only [ReviewState.observeAfter, ReviewState.noteCommand]
    split_ifs <;> rfl
  | tasksSaved unfinished => rfl

theorem refreshFile_checks (file : CompletionFile) (digest : Option String) :
    (s.refreshFile file digest).checks = s.checks := by
  unfold ReviewState.refreshFile
  split
  · split_ifs <;> rfl
  · rfl

theorem readBack_checks (checkpoint : ℕ) (file : CompletionFile) (digest : Option String) :
    (s.readBack checkpoint file digest).checks = s.checks := by
  unfold ReviewState.readBack
  split_ifs <;> rfl

theorem takeFeedback_checks : s.takeFeedback.2.checks = s.checks := by
  simp only [ReviewState.takeFeedback]
  split_ifs <;> rfl

theorem checksEffect (s : ReviewState) (c : ReviewCall) : ChecksEffect s c := by
  cases c with
  | checkpoint => exact checksEffect_of_same rfl (by simp) (by simp)
  | observeAfter checkpoint observation =>
    exact checksEffect_of_same (observeAfter_checks _ _) (by simp) (by simp)
  | recordEdit file digest requiresCheck contracts =>
    exact checksEffect_of_same (recordEdit_checks _ _ _ _) (by simp) (by simp)
  | refreshFile file digest => exact checksEffect_of_same (refreshFile_checks _ _) (by simp) (by simp)
  | readBack checkpoint file digest => exact checksEffect_of_same (readBack_checks _ _ _) (by simp) (by simp)
  | noteGap => exact checksEffect_of_same rfl (by simp) (by simp)
  | takeFeedback => exact checksEffect_of_same takeFeedback_checks (by simp) (by simp)
  | beginCheck contract files =>
    by_cases hvalid : s.acceptsCheck contract files = true
    · refine .begun contract files rfl hvalid ?_
      simp only [ReviewState.exec, ReviewState.beginCheck, if_pos hvalid]
    · refine .same ?_ (by simp) ?_
      · rintro _ _ ⟨⟩
        exact Bool.eq_false_iff.mpr hvalid
      · simp only [ReviewState.exec, ReviewState.beginCheck, if_neg hvalid]
  | finishCheck attempt outcome =>
    cases hget : s.checks[attempt.contract]? with
    | none =>
      refine .same (by simp) ?_ ?_
      · rintro _ _ ⟨⟩ latest hl
        rw [hget] at hl
        cases hl
      · simp only [ReviewState.exec, ReviewState.finishCheck, hget]
    | some latest =>
      by_cases hopen : latest.attempt.id = attempt.id ∧ latest.settled = false
      · refine .finished attempt outcome latest
          (if outcome = .passed ∧ s.unchanged attempt = false then .unknown else outcome) rfl hget hopen.1 hopen.2 ?_ ?_
        · intro hpass
          split_ifs at hpass
          exact hpass
        · simp only [ReviewState.exec, ReviewState.finishCheck, hget, if_pos hopen]
      · refine .same (by simp) ?_ ?_
        · rintro _ _ ⟨⟩ latest' hl hid
          rw [hget] at hl
          cases hl
          rw [not_and] at hopen
          simpa using hopen hid
        · simp only [ReviewState.exec, ReviewState.finishCheck, hget, if_neg hopen]

theorem nextAttempt_cases (s : ReviewState) (c : ReviewCall) :
    (∃ contract files, c = .beginCheck contract files ∧ (s.exec c).2.nextAttempt = saturatingNext s.nextAttempt) ∨
      ((∀ a, (s.exec c).1 ≠ .attempt a) ∧ (s.exec c).2.nextAttempt = s.nextAttempt) := by
  cases c with
  | beginCheck contract files =>
    left
    refine ⟨contract, files, rfl, ?_⟩
    simp only [ReviewState.exec, ReviewState.beginCheck]
    split_ifs <;> rfl
  | checkpoint => exact Or.inr ⟨by simp [ReviewState.exec], rfl⟩
  | noteGap => exact Or.inr ⟨by simp [ReviewState.exec], rfl⟩
  | observeAfter checkpoint observation =>
    refine Or.inr ⟨by simp [ReviewState.exec], ?_⟩
    cases observation <;>
      simp only [ReviewState.exec, ReviewState.observeAfter, ReviewState.recordEdit, ReviewState.noteCommand] <;>
      (try split_ifs) <;> rfl
  | recordEdit file digest requiresCheck contracts =>
    refine Or.inr ⟨by simp [ReviewState.exec], ?_⟩
    simp only [ReviewState.exec, ReviewState.recordEdit]
    split_ifs <;> rfl
  | refreshFile file digest =>
    refine Or.inr ⟨by simp [ReviewState.exec], ?_⟩
    simp only [ReviewState.exec, ReviewState.refreshFile]
    split
    · split_ifs <;> rfl
    · rfl
  | readBack checkpoint file digest =>
    refine Or.inr ⟨by simp [ReviewState.exec], ?_⟩
    simp only [ReviewState.exec, ReviewState.readBack]
    split_ifs <;> rfl
  | finishCheck attempt outcome =>
    refine Or.inr ⟨by simp [ReviewState.exec], ?_⟩
    simp only [ReviewState.exec, ReviewState.finishCheck]
    split
    · split_ifs <;> rfl
    · rfl
  | takeFeedback =>
    refine Or.inr ⟨by simp [ReviewState.exec], ?_⟩
    simp only [ReviewState.exec, ReviewState.takeFeedback]
    split_ifs <;> rfl

theorem overflow_of (h : s.overflow = true ∨ (stepOf s c).Gap) : (s.exec c).2.overflow = true := by
  have hedit : ∀ file digest requiresCheck contracts, s.overflow = true ∨ s.acceptsEdit file contracts = false →
      (s.recordEdit file digest requiresCheck contracts).overflow = true := by
    intro file digest requiresCheck contracts hor
    unfold ReviewState.recordEdit
    split_ifs with haccept
    · rcases hor with ho | hr
      · exact ho
      · rw [haccept] at hr
        cases hr
    · rfl
  rcases h with ho | hnote | ⟨file, digest, req, contracts, hc, hr⟩ | ⟨cp, path, req, hc, hr⟩ | ⟨contract, files, hc, hr⟩
  · cases c with
    | checkpoint => exact ho
    | noteGap => rfl
    | recordEdit file digest requiresCheck contracts => exact hedit _ _ _ _ (Or.inl ho)
    | observeAfter checkpoint observation =>
      cases observation with
      | edited path requiresCheck => exact hedit _ _ _ _ (Or.inl ho)
      | readBack path =>
        simp only [ReviewState.exec, ReviewState.observeAfter]
        split_ifs <;> exact ho
      | commandFinished passed =>
        simp only [ReviewState.exec, ReviewState.observeAfter, ReviewState.noteCommand]
        split_ifs <;> exact ho
      | verificationFinished passed =>
        simp only [ReviewState.exec, ReviewState.observeAfter, ReviewState.noteCommand]
        split_ifs <;> exact ho
      | tasksSaved unfinished => exact ho
    | refreshFile file digest =>
      simp only [ReviewState.exec, ReviewState.refreshFile]
      split
      · split_ifs <;> exact ho
      · exact ho
    | readBack checkpoint file digest =>
      simp only [ReviewState.exec, ReviewState.readBack]
      split_ifs <;> exact ho
    | beginCheck contract files =>
      simp only [ReviewState.exec, ReviewState.beginCheck]
      split_ifs
      · exact ho
      · rfl
    | finishCheck attempt outcome =>
      simp only [ReviewState.exec, ReviewState.finishCheck]
      split
      · split_ifs <;> exact ho
      · exact ho
    | takeFeedback =>
      simp only [ReviewState.exec, ReviewState.takeFeedback]
      split_ifs <;> exact ho
  · cases hnote
    rfl
  · cases hc
    exact hedit _ _ _ _ (Or.inr hr)
  · cases hc
    exact hedit _ _ _ _ (Or.inr hr)
  · cases hc
    have hr' : s.acceptsCheck contract files = false := hr
    simp [ReviewState.exec, ReviewState.beginCheck, hr']

theorem takeFeedback_cases (s : ReviewState) :
    s.takeFeedback = (none, s) ∨
      s.prompted = false ∧ ∃ feedback, s.takeFeedback = (some feedback, { s with prompted := true }) := by
  unfold ReviewState.takeFeedback
  dsimp only
  split_ifs with hquiet
  · exact Or.inl rfl
  · right
    rw [not_or] at hquiet
    exact ⟨Bool.eq_false_iff.mpr hquiet.1, _, rfl⟩

theorem prompted_cases (s : ReviewState) (c : ReviewCall) :
    ((stepOf s c).Prompts ∧ s.prompted = false ∧ (s.exec c).2.prompted = true) ∨
      (¬(stepOf s c).Prompts ∧ (s.exec c).2.prompted = s.prompted) := by
  cases c with
  | takeFeedback =>
    rcases takeFeedback_cases s with hnone | ⟨hp, feedback, hsome⟩
    · right
      simp [Step.Prompts, stepOf, ReviewState.exec, hnone]
    · left
      simp [Step.Prompts, stepOf, ReviewState.exec, hsome, hp]
  | checkpoint => exact Or.inr ⟨by simp [Step.Prompts, stepOf, ReviewState.exec], rfl⟩
  | noteGap => exact Or.inr ⟨by simp [Step.Prompts, stepOf, ReviewState.exec], rfl⟩
  | observeAfter checkpoint observation =>
    refine Or.inr ⟨by simp [Step.Prompts, stepOf, ReviewState.exec], ?_⟩
    cases observation <;>
      simp only [ReviewState.exec, ReviewState.observeAfter, ReviewState.recordEdit, ReviewState.noteCommand] <;>
      (try split_ifs) <;> rfl
  | recordEdit file digest requiresCheck contracts =>
    refine Or.inr ⟨by simp [Step.Prompts, stepOf, ReviewState.exec], ?_⟩
    simp only [ReviewState.exec, ReviewState.recordEdit]
    split_ifs <;> rfl
  | refreshFile file digest =>
    refine Or.inr ⟨by simp [Step.Prompts, stepOf, ReviewState.exec], ?_⟩
    simp only [ReviewState.exec, ReviewState.refreshFile]
    split
    · split_ifs <;> rfl
    · rfl
  | readBack checkpoint file digest =>
    refine Or.inr ⟨by simp [Step.Prompts, stepOf, ReviewState.exec], ?_⟩
    simp only [ReviewState.exec, ReviewState.readBack]
    split_ifs <;> rfl
  | beginCheck contract files =>
    refine Or.inr ⟨by simp [Step.Prompts, stepOf, ReviewState.exec], ?_⟩
    simp only [ReviewState.exec, ReviewState.beginCheck]
    split_ifs <;> rfl
  | finishCheck attempt outcome =>
    refine Or.inr ⟨by simp [Step.Prompts, stepOf, ReviewState.exec], ?_⟩
    simp only [ReviewState.exec, ReviewState.finishCheck]
    split
    · split_ifs <;> rfl
    · rfl

end AnimaCore.Completion
