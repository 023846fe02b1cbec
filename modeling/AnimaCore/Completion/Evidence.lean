import AnimaCore.Completion.Effects

/-!
# AnimaCore.Completion.Evidence — no reminder means current evidence

The review keeps no history, only counters and flags.  Here the calls of a session are kept beside it, and what its
state says is traced back to them.

* `FileEvidence h f cur`, `CheckEvidence h contract check`: the calls of the history `h` a record stands for.
* `Traced s`: every record of the session's state has its evidence in the history; one call keeps it (`Traced.call`).
* Two positions of one history are compared with `split_cases`: which of two calls came first is decided by the
  revision, or the attempt number, in the state before it.
-/

namespace AnimaCore.Completion

open Lib

variable {s : ReviewState} {c : ReviewCall} {f : CompletionFile}

/-- `f` was changed, then a checkpoint was taken, then `f` was read back through it, and not changed since. -/
def ReadAfterChange (h : List Step) (f : CompletionFile) : Prop :=
  ∃ pre x post, h = pre ++ x :: post ∧ x.Changes f ∧ (∀ y ∈ post, ¬y.Changes f) ∧
    ∃ c pre' y post', post = pre' ++ y :: post' ∧ y.answer = .checkpoint c ∧ ∃ z ∈ post', z.ReadsBack f c

/-- The last attempt of `contract` was begun after the last change of `f`, covers `f` with `digest`, and the first outcome
it was finished with is a pass. -/
def PassedAfterChange (h : List Step) (f : CompletionFile) (digest : Option String) (contract : String) : Prop :=
  ∃ pre b post attempt, h = pre ++ b :: post ∧ b.Begins contract ∧ b.answer = .attempt attempt ∧
    (∀ y ∈ post, ¬y.Begins contract) ∧ (∀ y ∈ post, ¬y.Changes f) ∧
    (∃ revision, (f, revision, digest) ∈ attempt.versions) ∧
    ∃ pre' z post', post = pre' ++ z :: post' ∧ z.call = .finishCheck attempt .passed ∧
      ∀ y ∈ pre', ∀ outcome, y.call ≠ .finishCheck attempt outcome

/-! ## Two positions of one history -/

theorem split_cases {α : Type} {pre pre' post post' : List α} {x x' : α} (h : pre ++ x :: post = pre' ++ x' :: post') :
    (∃ m, pre' = pre ++ x :: m ∧ post = m ++ x' :: post') ∨ (pre = pre' ∧ x = x' ∧ post = post') ∨
      ∃ m, pre = pre' ++ x' :: m ∧ post' = m ++ x :: post := by
  rcases List.append_eq_append_iff.mp h with ⟨m, h1, h2⟩ | ⟨m, h1, h2⟩
  · cases m with
    | nil =>
      rw [List.nil_append] at h2
      cases h2
      rw [List.append_nil] at h1
      exact Or.inr (Or.inl ⟨h1.symm, rfl, rfl⟩)
    | cons a m =>
      rw [List.cons_append] at h2
      cases h2
      exact Or.inl ⟨m, h1, rfl⟩
  · cases m with
    | nil =>
      rw [List.nil_append] at h2
      cases h2
      rw [List.append_nil] at h1
      exact Or.inr (Or.inl ⟨h1, rfl, rfl⟩)
    | cons a m =>
      rw [List.cons_append] at h2
      cases h2
      exact Or.inr (Or.inr ⟨m, h1, rfl⟩)

/-! ## What a session keeps -/

structure FileEvidence (h : List Step) (f : CompletionFile) (cur : FileState) : Prop where
  changed : ∃ pre x post, h = pre ++ x :: post ∧ x.Changes f ∧ (∀ y ∈ post, ¬y.Changes f) ∧
    x.before.revision < cur.revision ∧
    (cur.unread = false →
      ∃ c pre' y post', post = pre' ++ y :: post' ∧ y.answer = .checkpoint c ∧ ∃ z ∈ post', z.ReadsBack f c)
  edited : ∃ pre x post, h = pre ++ x :: post ∧ x.edit = some (f, cur.requiresCheck, cur.requiredContracts) ∧
    ∀ y ∈ post, ¬y.Edits f

/-- The calls the record of a check stands for. -/
def CheckEvidence (h : List Step) (contract : String) (check : CheckState) : Prop :=
  ∃ pre b post files, h = pre ++ b :: post ∧ b.call = .beginCheck contract files ∧
    b.before.acceptsCheck contract files = true ∧ b.answer = .attempt check.attempt ∧
    (∀ y ∈ post, ∀ files', y.call = .beginCheck contract files' → y.before.acceptsCheck contract files' = false) ∧
    (check.settled = false →
      check.outcome = .unknown ∧ ∀ y ∈ post, ∀ outcome, y.call ≠ .finishCheck check.attempt outcome) ∧
    (check.outcome = .passed →
      ∃ pre' z post', post = pre' ++ z :: post' ∧ z.call = .finishCheck check.attempt .passed ∧
        ∀ y ∈ pre', ∀ outcome, y.call ≠ .finishCheck check.attempt outcome)

/-- No file has a revision that was not given out yet. -/
def Bounded (s : ReviewState) : Prop := ∀ (f : CompletionFile) cur, s.files[f]? = some cur → cur.revision ≤ s.revision

/-- Every record of a session's state goes back to calls of its history. -/
structure Traced (s : Session) : Prop where
  revision_le : s.state.revision ≤ countedCalls s.history
  attempts_le : s.state.nextAttempt ≤ countedCalls s.history
  answered : ∀ y ∈ s.history, y.answer = (y.before.exec y.call).1
  room : ∀ y ∈ s.history, ∀ a, y.answer = .attempt a → y.before.nextAttempt < 2 ^ 64 - 1
  bounded : ∀ y ∈ s.history, Bounded y.before
  bounded_now : Bounded s.state
  revisions : s.history.Pairwise fun y z => y.before.revision ≤ z.before.revision
  revisions_now : ∀ y ∈ s.history, y.before.revision ≤ s.state.revision
  attempts : s.history.Pairwise fun y z => ∀ a, y.answer = .attempt a → a.id ≤ z.before.nextAttempt
  attempts_now : ∀ y ∈ s.history, ∀ a, y.answer = .attempt a → a.id ≤ s.state.nextAttempt
  gaps : s.state.overflow = false → ∀ y ∈ s.history, ¬y.Gap
  prompts : s.state.prompted = true ↔ ∃ y ∈ s.history, y.Prompts
  prompts_once : s.history.Pairwise fun y z => y.Prompts → ¬z.Prompts
  files : ∀ (f : CompletionFile) cur, s.state.files[f]? = some cur → FileEvidence s.history f cur
  checks : ∀ (contract : String) check, s.state.checks[contract]? = some check → CheckEvidence s.history contract check

theorem traced_start : Traced {} where
  revision_le := Nat.zero_le _
  attempts_le := Nat.zero_le _
  answered := by simp
  room := by simp
  bounded := by simp
  bounded_now := by
    intro f cur h
    simp at h
  revisions := List.Pairwise.nil
  revisions_now := by simp
  attempts := List.Pairwise.nil
  attempts_now := by simp
  gaps := by simp
  prompts := by simp
  prompts_once := List.Pairwise.nil
  files := by
    intro f cur h
    simp at h
  checks := by
    intro contract check h
    simp at h

/-! ### Records that a call leaves alone -/

variable {h : List Step} {y : Step}

theorem FileEvidence.snoc {cur : FileState} (e : FileEvidence h f cur) (hnot : ¬y.Changes f) :
    FileEvidence (h ++ [y]) f cur := by
  obtain ⟨⟨pre, x, post, rfl, hx, hpost, hrev, hread⟩, pre₂, x₂, post₂, heq, hedit, hpost₂⟩ := e
  constructor
  · refine ⟨pre, x, post ++ [y], by simp, hx, ?_, hrev, ?_⟩
    · intro z hz
      rcases List.mem_append.mp hz with hz | hz
      · exact hpost z hz
      · rw [List.mem_singleton] at hz
        exact hz ▸ hnot
    · intro hunread
      obtain ⟨cp, pre', y', post', rfl, hcp, z, hz, hzr⟩ := hread hunread
      exact ⟨cp, pre', y', post' ++ [y], by simp, hcp, z, List.mem_append_left _ hz, hzr⟩
  · refine ⟨pre₂, x₂, post₂ ++ [y], by rw [heq]; simp, hedit, ?_⟩
    intro z hz
    rcases List.mem_append.mp hz with hz | hz
    · exact hpost₂ z hz
    · rw [List.mem_singleton] at hz
      rw [hz]
      exact fun hy => hnot (Or.inl hy)

theorem CheckEvidence.snoc {contract : String} {check : CheckState} (e : CheckEvidence h contract check)
    (hbegin : ∀ files, y.call = .beginCheck contract files → y.before.acceptsCheck contract files = false)
    (hfinish : check.settled = false → ∀ outcome, y.call ≠ .finishCheck check.attempt outcome) :
    CheckEvidence (h ++ [y]) contract check := by
  obtain ⟨pre, b, post, files, rfl, hb, hvalid, ha, hpost, hopen, hpass⟩ := e
  refine ⟨pre, b, post ++ [y], files, by simp, hb, hvalid, ha, ?_, ?_, ?_⟩
  · intro z hz
    rcases List.mem_append.mp hz with hz | hz
    · exact hpost z hz
    · rw [List.mem_singleton] at hz
      exact hz ▸ hbegin
  · intro hsettled
    refine ⟨(hopen hsettled).1, ?_⟩
    intro z hz
    rcases List.mem_append.mp hz with hz | hz
    · exact (hopen hsettled).2 z hz
    · rw [List.mem_singleton] at hz
      exact hz ▸ hfinish hsettled
  · intro hpassed
    obtain ⟨pre', z, post', rfl, hz, hfirst⟩ := hpass hpassed
    exact ⟨pre', z, post' ++ [y], by simp, hz, hfirst⟩

/-! ### Answers -/

theorem answer_checkpoint {k : ℕ} (ha : (s.exec c).1 = .checkpoint k) : c = .checkpoint ∧ k = s.revision := by
  cases c <;> simp [ReviewState.exec] at ha
  exact ⟨rfl, ha.symm⟩

theorem answer_attempt {a : CompletionAttempt} (ha : (s.exec c).1 = .attempt a) :
    ∃ files, c = .beginCheck a.contract files ∧ a = (s.beginCheck a.contract files).1 := by
  cases c <;> simp [ReviewState.exec] at ha
  next contract files =>
    have hcontract : a.contract = contract := by
      rw [← ha]
      rfl
    refine ⟨files, by rw [hcontract], ?_⟩
    rw [hcontract]
    exact ha.symm

theorem beginCheck_id (contract : String) (files : List CompletionFile) :
    (s.beginCheck contract files).1.id = saturatingNext s.nextAttempt := rfl

theorem saturatingNext_eq {n : ℕ} (hn : n < 2 ^ 64 - 1) : saturatingNext n = n + 1 := by
  unfold saturatingNext
  omega

theorem Traced.attempt_unique {s : Session} (t : Traced s) {y z : Step} (hy : y ∈ s.history) (hz : z ∈ s.history)
    {a a' : CompletionAttempt} (ha : y.answer = .attempt a) (ha' : z.answer = .attempt a') (hid : a.id = a'.id) :
    a = a' := by
  have hnext : ∀ w ∈ s.history, ∀ b : CompletionAttempt, w.answer = .attempt b → b.id = w.before.nextAttempt + 1 := by
    intro w hw b hb
    rw [t.answered w hw] at hb
    have hroom := t.room w hw b (hb ▸ t.answered w hw)
    obtain ⟨files, _, heq⟩ := answer_attempt hb
    rw [heq, beginCheck_id, saturatingNext_eq hroom]
  obtain ⟨pre, post, hsplit⟩ := List.append_of_mem hy
  obtain ⟨pre', post', hsplit'⟩ := List.append_of_mem hz
  have hpair := t.attempts
  rcases split_cases (hsplit.symm.trans hsplit') with ⟨m, rfl, _⟩ | ⟨_, rfl, _⟩ | ⟨m, rfl, _⟩
  · rw [hsplit', List.pairwise_append] at hpair
    have hle := hpair.2.2 y (by simp) z (by simp) a ha
    have hlt := hnext z hz a' ha'
    omega
  · rw [ha] at ha'
    cases ha'
    rfl
  · rw [hsplit, List.pairwise_append] at hpair
    have hle := hpair.2.2 z (by simp) y (by simp) a' ha'
    have hlt := hnext y hy a ha
    omega

/-! ### One call -/

variable {S : Session}

theorem honest_of_readsBack {cp : ℕ} (hh : S.Honest c) (hread : (stepOf S.state c).ReadsBack f cp) :
    ∃ y ∈ S.history, y.answer = .checkpoint cp := by
  rcases hread with ⟨digest, hc, _⟩ | ⟨path, _, hc⟩
  · have hc' : c = .readBack cp f (some digest) := hc
    rw [hc'] at hh
    exact hh
  · have hc' : c = .observeAfter cp (.readBack path) := hc
    rw [hc'] at hh
    exact hh

theorem Traced.read {cp : ℕ} {cur : FileState} (t : Traced S) (hh : S.Honest c)
    (hread : (stepOf S.state c).ReadsBack f cp) (hcp : S.state.revision = cp) (hnot : ¬(stepOf S.state c).Changes f)
    (hcur : S.state.files[f]? = some cur) :
    FileEvidence (S.history ++ [stepOf S.state c]) f { cur with unread := false } := by
  have hsnoc := (t.files f cur hcur).snoc hnot
  obtain ⟨y, hy, hya⟩ := honest_of_readsBack hh hread
  have hyrev : y.before.revision = cp := by
    have ha := t.answered y hy
    rw [hya] at ha
    exact (answer_checkpoint ha.symm).2.symm
  refine ⟨?_, hsnoc.edited⟩
  obtain ⟨⟨pre, x, post, hsplit, hx, hpost, hrev, _⟩, _⟩ := t.files f cur hcur
  refine ⟨pre, x, post ++ [stepOf S.state c], by rw [hsplit]; simp, hx, ?_, hrev, fun _ => ?_⟩
  · intro z hz
    rcases List.mem_append.mp hz with hz | hz
    · exact hpost z hz
    · rw [List.mem_singleton] at hz
      exact hz ▸ hnot
  have hmem : y ∈ post := by
    have hbound := t.bounded_now f cur hcur
    have hpair := t.revisions
    rw [hsplit, List.pairwise_append] at hpair
    rw [hsplit, List.mem_append, List.mem_cons] at hy
    rcases hy with hpre | rfl | hpost'
    · have hle := hpair.2.2 y hpre x List.mem_cons_self
      omega
    · omega
    · exact hpost'
  obtain ⟨pre', post', rfl⟩ := List.append_of_mem hmem
  exact ⟨cp, pre', y, post' ++ [stepOf S.state c], by simp, hya, stepOf S.state c, by simp, hread⟩

theorem counted_of_edit {e : CompletionFile × Bool × List String} (hedit : (stepOf s c).edit = some e) :
    counted c = true := by
  cases c with
  | checkpoint => cases hedit
  | takeFeedback => cases hedit
  | _ => rfl

theorem counted_of_refreshes (hr : (stepOf s c).Refreshes f) : counted c = true := by
  obtain ⟨digest, _, hc, _⟩ := hr
  have hc' : c = .refreshFile f digest := hc
  rw [hc']
  rfl

theorem Traced.files_call (t : Traced S) (hroom : counted c = true → S.state.revision < 2 ^ 64 - 1)
    (hh : S.Honest c) :
    ∀ (f : CompletionFile) cur, (S.state.exec c).2.files[f]? = some cur →
      FileEvidence (S.history ++ [stepOf S.state c]) f cur := by
  intro g cur hcur
  cases filesEffect S.state c with
  | same hnot hfiles hrev =>
    rw [hfiles] at hcur
    exact (t.files g cur hcur).snoc (hnot g)
  | read f cp hread hcp hnot hfiles hrev =>
    rw [hfiles, Table.getElem?_modify_eq] at hcur
    by_cases hfg : f = g
    · subst hfg
      rw [if_pos rfl, Option.map_eq_some_iff] at hcur
      obtain ⟨old, hold, rfl⟩ := hcur
      exact t.read hh hread hcp (hnot f) hold
    · rw [if_neg hfg] at hcur
      exact (t.files g cur hcur).snoc (hnot g)
  | edited f digest requiresCheck contracts hedit hfiles hrev =>
    have hnext := saturatingNext_eq (hroom (counted_of_edit hedit))
    rw [hfiles, Table.getElem?_insert_eq] at hcur
    by_cases hfg : f = g
    · subst hfg
      rw [if_pos rfl, Option.some.injEq] at hcur
      subst hcur
      constructor
      · refine ⟨S.history, stepOf S.state c, [], rfl, Or.inl ⟨_, _, hedit⟩, by simp, ?_, by simp⟩
        show S.state.revision < saturatingNext S.state.revision
        omega
      · exact ⟨S.history, stepOf S.state c, [], rfl, hedit, by simp⟩
    · rw [if_neg hfg] at hcur
      refine (t.files g cur hcur).snoc ?_
      rintro (⟨_, _, he⟩ | ⟨digest', _, hc, _⟩)
      · rw [hedit] at he
        cases he
        exact hfg rfl
      · have hnone : (stepOf S.state c).edit = none := by simp [Step.edit, hc]
        rw [hedit] at hnone
        cases hnone
  | refreshed f digest old hcall hnot honly hold hfiles hrev =>
    have hnext := saturatingNext_eq (hroom (counted_of_refreshes hcall))
    rw [hfiles, Table.getElem?_insert_eq] at hcur
    by_cases hfg : f = g
    · subst hfg
      rw [if_pos rfl, Option.some.injEq] at hcur
      subst hcur
      constructor
      · refine ⟨S.history, stepOf S.state c, [], rfl, Or.inr hcall, by simp, ?_, by simp⟩
        show S.state.revision < saturatingNext S.state.revision
        omega
      · obtain ⟨pre, x, post, hsplit, hedit, hpost⟩ := (t.files f old hold).edited
        refine ⟨pre, x, post ++ [stepOf S.state c], by rw [hsplit]; simp, hedit, ?_⟩
        intro z hz
        rcases List.mem_append.mp hz with hz | hz
        · exact hpost z hz
        · rw [List.mem_singleton] at hz
          exact hz ▸ hnot f
    · rw [if_neg hfg] at hcur
      refine (t.files g cur hcur).snoc ?_
      rintro (he | hr)
      · exact hnot g he
      · exact hfg (honly g hr).symm

theorem CheckEvidence.contract_eq {contract : String} {check : CheckState} (e : CheckEvidence h contract check)
    (hanswered : ∀ y ∈ h, y.answer = (y.before.exec y.call).1) : check.attempt.contract = contract := by
  obtain ⟨pre, b, post, files, rfl, hb, _, ha, _⟩ := e
  have hexec := hanswered b (by simp)
  rw [ha] at hexec
  obtain ⟨files', hc, _⟩ := answer_attempt hexec.symm
  rw [hb] at hc
  cases hc
  rfl

theorem Traced.checks_call (t : Traced S) (hh : S.Honest c) :
    ∀ (contract : String) check, (S.state.exec c).2.checks[contract]? = some check →
      CheckEvidence (S.history ++ [stepOf S.state c]) contract check := by
  intro k check hget
  cases checksEffect S.state c with
  | same hbegin hfinish hchecks =>
    rw [hchecks] at hget
    have e := t.checks k check hget
    have hk := e.contract_eq t.answered
    refine e.snoc (fun files hc => hbegin k files hc) ?_
    intro hopen outcome hc
    have hc' : c = .finishCheck check.attempt outcome := hc
    have hsettled := hfinish _ _ hc' check (by rw [hk]; exact hget) rfl
    rw [hopen] at hsettled
    cases hsettled
  | begun contract files hcall hvalid hchecks =>
    rw [hchecks, Table.getElem?_insert_eq] at hget
    by_cases hk : contract = k
    · subst hk
      rw [if_pos rfl, Option.some.injEq] at hget
      subst hget
      refine ⟨S.history, stepOf S.state c, [], files, rfl, hcall, hvalid, ?_, by simp, by simp, by simp⟩
      rw [hcall]
      rfl
    · rw [if_neg hk] at hget
      refine (t.checks k check hget).snoc ?_ ?_
      · intro files' hc
        have hc' : c = .beginCheck k files' := hc
        rw [hcall] at hc'
        cases hc'
        exact absurd rfl hk
      · intro _ outcome hc
        have hc' : c = .finishCheck check.attempt outcome := hc
        rw [hcall] at hc'
        cases hc'
  | finished attempt outcome latest settledAs hcall hlatest hid hopen hpass hchecks =>
    rw [hchecks, Table.getElem?_insert_eq] at hget
    have hnobegin : ∀ k files, (stepOf S.state c).call = .beginCheck k files →
        (stepOf S.state c).before.acceptsCheck k files = false := by
      intro k files hc
      have hc' : c = .beginCheck k files := hc
      rw [hcall] at hc'
      cases hc'
    by_cases hk : attempt.contract = k
    · subst hk
      rw [if_pos rfl, Option.some.injEq] at hget
      subst hget
      obtain ⟨pre, b, post, files, hsplit, hb, hvalid, ha, hpost, hunsettled, _⟩ := t.checks _ latest hlatest
      -- the attempt that is finished is the one that was begun last
      have hsame : attempt = latest.attempt := by
        rw [hcall] at hh
        obtain ⟨y, hy, hya⟩ := hh
        exact t.attempt_unique hy (by rw [hsplit]; simp) hya ha hid.symm
      refine ⟨pre, b, post ++ [stepOf S.state c], files, by rw [hsplit]; simp, hb, hvalid, ha, ?_, by simp, ?_⟩
      · intro z hz
        rcases List.mem_append.mp hz with hz | hz
        · exact hpost z hz
        · rw [List.mem_singleton] at hz
          exact hz ▸ hnobegin _
      · intro hpassed
        refine ⟨post, stepOf S.state c, [], rfl, ?_, (hunsettled hopen).2⟩
        show c = .finishCheck latest.attempt .passed
        rw [hcall, hsame, hpass hpassed]
    · rw [if_neg hk] at hget
      have e := t.checks k check hget
      refine e.snoc (hnobegin k) ?_
      intro _ outcome' hc
      have hc' : c = .finishCheck check.attempt outcome' := hc
      rw [hcall] at hc'
      cases hc'
      exact hk (e.contract_eq t.answered)

theorem countedCalls_snoc (y : Step) : countedCalls (h ++ [y]) = countedCalls h + if counted y.call then 1 else 0 := by
  by_cases hy : counted y.call = true <;> simp [countedCalls, hy]

theorem saturatingNext_le (n : ℕ) : saturatingNext n ≤ n + 1 := Nat.min_le_left _ _

theorem le_saturatingNext {n : ℕ} (hn : n ≤ 2 ^ 64 - 1) : n ≤ saturatingNext n := le_min (Nat.le_succ n) hn

theorem revision_cases (s : ReviewState) (c : ReviewCall) :
    (s.exec c).2.revision ≤ s.revision + (if counted c then 1 else 0) ∧
      (s.revision ≤ 2 ^ 64 - 1 → s.revision ≤ (s.exec c).2.revision) := by
  have hup : s.revision ≤ 2 ^ 64 - 1 → s.revision ≤ saturatingNext s.revision := le_saturatingNext
  cases filesEffect s c with
  | edited f digest requiresCheck contracts hedit hfiles hrev =>
    rw [hrev, counted_of_edit hedit, if_pos rfl]
    exact ⟨saturatingNext_le _, hup⟩
  | refreshed f digest cur hcall hnot honly hcur hfiles hrev =>
    rw [hrev, counted_of_refreshes hcall, if_pos rfl]
    exact ⟨saturatingNext_le _, hup⟩
  | read f cp hread hcp hnot hfiles hrev =>
    rw [hrev]
    exact ⟨Nat.le_add_right _ _, fun _ => le_refl _⟩
  | same hnot hfiles hrev =>
    rw [hrev]
    exact ⟨Nat.le_add_right _ _, fun _ => le_refl _⟩

theorem bounded_call (hb : Bounded s) (hrev : s.revision ≤ (s.exec c).2.revision) : Bounded (s.exec c).2 := by
  intro g cur hcur
  cases filesEffect s c with
  | edited f digest requiresCheck contracts hedit hfiles hrev' =>
    rw [hfiles, Table.getElem?_insert_eq] at hcur
    by_cases hfg : f = g
    · rw [if_pos hfg, Option.some.injEq] at hcur
      rw [← hcur, hrev']
    · rw [if_neg hfg] at hcur
      exact (hb g cur hcur).trans hrev
  | refreshed f digest old hcall hnot honly hold hfiles hrev' =>
    rw [hfiles, Table.getElem?_insert_eq] at hcur
    by_cases hfg : f = g
    · rw [if_pos hfg, Option.some.injEq] at hcur
      rw [← hcur, hrev']
    · rw [if_neg hfg] at hcur
      exact (hb g cur hcur).trans hrev
  | read f cp hread hcp hnot hfiles hrev' =>
    rw [hfiles, Table.getElem?_modify_eq] at hcur
    by_cases hfg : f = g
    · rw [if_pos hfg, Option.map_eq_some_iff] at hcur
      obtain ⟨old, hold, rfl⟩ := hcur
      exact (hb f old hold).trans hrev
    · rw [if_neg hfg] at hcur
      exact (hb g cur hcur).trans hrev
  | same hnot hfiles hrev' =>
    rw [hfiles] at hcur
    exact (hb g cur hcur).trans hrev

theorem Traced.call (t : Traced S) (hh : S.Honest c) (hlen : countedCalls (S.call c).history < 2 ^ 64) :
    Traced (S.call c) := by
  have hcount := countedCalls_snoc (h := S.history) (stepOf S.state c)
  have hlen' : countedCalls (S.history ++ [stepOf S.state c]) < 2 ^ 64 := hlen
  have hroom : counted c = true → countedCalls S.history < 2 ^ 64 - 1 := by
    intro hc
    have hc' : counted (stepOf S.state c).call = true := hc
    rw [hc', if_pos rfl] at hcount
    omega
  have hle : countedCalls S.history ≤ 2 ^ 64 - 1 := by omega
  obtain ⟨hrevle, hrevup⟩ := revision_cases S.state c
  have hup := hrevup (t.revision_le.trans hle)
  have hmem : ∀ {P : Step → Prop}, (∀ y ∈ S.history, P y) → P (stepOf S.state c) →
      ∀ y ∈ S.history ++ [stepOf S.state c], P y := by
    intro P hall hlast y hy
    rcases List.mem_append.mp hy with hy | hy
    · exact hall y hy
    · rw [List.mem_singleton] at hy
      exact hy ▸ hlast
  have hpair : ∀ {R : Step → Step → Prop}, S.history.Pairwise R → (∀ y ∈ S.history, R y (stepOf S.state c)) →
      (S.history ++ [stepOf S.state c]).Pairwise R := by
    intro R hold hlast
    rw [List.pairwise_append]
    refine ⟨hold, List.pairwise_singleton _ _, ?_⟩
    intro y hy z hz
    rw [List.mem_singleton] at hz
    exact hz ▸ hlast y hy
  constructor
  · show (S.state.exec c).2.revision ≤ countedCalls (S.history ++ [stepOf S.state c])
    rw [hcount]
    exact hrevle.trans (Nat.add_le_add_right t.revision_le _)
  · show (S.state.exec c).2.nextAttempt ≤ countedCalls (S.history ++ [stepOf S.state c])
    rw [hcount]
    have hold := t.attempts_le
    rcases nextAttempt_cases S.state c with ⟨contract, files, hc, hnext⟩ | ⟨_, hnext⟩
    · have hone : (if counted (stepOf S.state c).call then 1 else 0) = 1 := by
        show (if counted c then 1 else 0) = 1
        rw [hc]
        rfl
      have hsat := saturatingNext_le S.state.nextAttempt
      omega
    · omega
  · exact hmem t.answered rfl
  · refine hmem t.room ?_
    intro a ha
    obtain ⟨files, hc, _⟩ := answer_attempt ha
    have hcounted : counted c = true := by
      rw [hc]
      rfl
    have := t.attempts_le
    have := hroom hcounted
    show S.state.nextAttempt < 2 ^ 64 - 1
    omega
  · exact hmem t.bounded t.bounded_now
  · exact bounded_call t.bounded_now hup
  · exact hpair t.revisions t.revisions_now
  · exact hmem (fun y hy => (t.revisions_now y hy).trans hup) hup
  · exact hpair t.attempts t.attempts_now
  · -- a begun attempt has the number that is now the last
    have hkeep : S.state.nextAttempt ≤ (S.state.exec c).2.nextAttempt := by
      rcases nextAttempt_cases S.state c with ⟨_, _, _, hnext⟩ | ⟨_, hnext⟩
      · rw [hnext]
        exact le_saturatingNext (t.attempts_le.trans hle)
      · exact hnext.symm.le
    refine hmem (fun y hy a ha => (t.attempts_now y hy a ha).trans hkeep) ?_
    intro a ha
    obtain ⟨files, hc, heq⟩ := answer_attempt ha
    rcases nextAttempt_cases S.state c with ⟨_, _, _, hnext⟩ | ⟨hno, _⟩
    · show a.id ≤ (S.state.exec c).2.nextAttempt
      rw [hnext, heq]
      exact le_refl _
    · exact absurd ha (hno a)
  · intro hgap
    have hold : S.state.overflow = false ∧ ¬(stepOf S.state c).Gap := by
      constructor
      · by_contra ho
        have := overflow_of (c := c) (Or.inl (by simpa using ho))
        rw [show (S.call c).state.overflow = (S.state.exec c).2.overflow from rfl, this] at hgap
        cases hgap
      · intro hg
        have := overflow_of (Or.inr hg)
        rw [show (S.call c).state.overflow = (S.state.exec c).2.overflow from rfl, this] at hgap
        cases hgap
    exact hmem (t.gaps hold.1) hold.2
  · show (S.state.exec c).2.prompted = true ↔ ∃ y ∈ S.history ++ [stepOf S.state c], y.Prompts
    rcases prompted_cases S.state c with ⟨hyes, _, hp⟩ | ⟨hno, hp⟩
    · exact iff_of_true hp ⟨_, List.mem_append_right _ (List.mem_singleton.mpr rfl), hyes⟩
    · rw [hp, t.prompts]
      constructor
      · rintro ⟨y, hy, hpr⟩
        exact ⟨y, List.mem_append_left _ hy, hpr⟩
      · rintro ⟨y, hy, hpr⟩
        rcases List.mem_append.mp hy with hy | hy
        · exact ⟨y, hy, hpr⟩
        · rw [List.mem_singleton] at hy
          exact absurd (hy ▸ hpr) hno
  · refine hpair t.prompts_once ?_
    intro y hy hpr hlast
    rcases prompted_cases S.state c with ⟨_, hp, _⟩ | ⟨hno, _⟩
    · rw [t.prompts.mpr ⟨y, hy, hpr⟩] at hp
      cases hp
    · exact hno hlast
  · refine t.files_call ?_ hh
    intro hc
    have := t.revision_le
    have := hroom hc
    omega
  · exact t.checks_call hh

theorem countedCalls_le (S : Session) (c : ReviewCall) : countedCalls S.history ≤ countedCalls (S.call c).history :=
  (List.sublist_append_left _ _).countP_le

theorem traced_of_reaches (hr : Reaches Session.call Session.Honest {} S) (hlen : countedCalls S.history < 2 ^ 64) :
    Traced S := by
  induction hr with
  | start => exact traced_start
  | next c hr hh ih =>
    next S' =>
    exact (ih (lt_of_le_of_lt (countedCalls_le S' c) hlen)).call hh hlen

/-! ## The law -/

structure CurrentEvidence (S : Session) : Prop where
  no_gap : ∀ y ∈ S.history, ¬y.Gap
  /-- Every tracked file was read back after its last change. -/
  read : ∀ (f : CompletionFile) cur, S.state.files[f]? = some cur → ReadAfterChange S.history f
  /-- Every tracked file has a last edit; if that requires a check, its contracts passed after the last change. -/
  checked : ∀ (f : CompletionFile) cur, S.state.files[f]? = some cur →
    ∃ pre x post requiresCheck contracts, S.history = pre ++ x :: post ∧ x.edit = some (f, requiresCheck, contracts) ∧
      (∀ y ∈ post, ¬y.Edits f) ∧
      (requiresCheck = true → contracts ≠ [] ∧ ∀ contract ∈ contracts, PassedAfterChange S.history f cur.digest contract)

theorem Traced.passed (t : Traced S) (hgap : ∀ y ∈ S.history, ¬y.Gap) {cur : FileState} {contract : String}
    (hcur : S.state.files[f]? = some cur) (hcovered : S.state.coveredBy f cur contract = true) :
    PassedAfterChange S.history f cur.digest contract := by
  simp only [ReviewState.coveredBy, Option.any_eq_true, Bool.and_eq_true, beq_iff_eq, List.any_eq_true] at hcovered
  obtain ⟨check, hget, hpassed, ⟨covered, revision, digest⟩, hversion, ⟨rfl, rfl⟩, rfl⟩ := hcovered
  obtain ⟨pre, b, post, files, hsplit, hb, hvalid, ha, hpost, _, hfinished⟩ := t.checks contract check hget
  have hbmem : b ∈ S.history := by rw [hsplit]; simp
  refine ⟨pre, b, post, check.attempt, hsplit, ⟨files, hb⟩, ha, ?_, ?_, ⟨_, hversion⟩, hfinished hpassed⟩
  · rintro y hy ⟨files', hc⟩
    have hrejected := hpost y hy files' hc
    exact hgap y (by rw [hsplit]; simp [hy]) (Or.inr (Or.inr (Or.inr ⟨contract, files', hc, hrejected⟩)))
  · -- a change after the begin would have taken a later revision
    intro y hy hchange
    obtain ⟨pre', x, post', hsplit', _, hlast, hrev, _⟩ := (t.files _ cur hcur).changed
    have hversionOf : ∃ old, b.before.files[covered]? = some old ∧ old.revision = cur.revision := by
      have hanswer := t.answered b hbmem
      rw [ha, hb] at hanswer
      have hattempt : check.attempt = (b.before.beginCheck contract files).1 := by
        exact ReviewAnswer.attempt.inj hanswer
      rw [hattempt, ReviewState.beginCheck] at hversion
      dsimp only at hversion
      rw [if_pos hvalid, ReviewState.versionsOf, List.mem_filterMap] at hversion
      obtain ⟨file, _, hfile⟩ := hversion
      rw [Option.map_eq_some_iff] at hfile
      obtain ⟨old, hold, heq⟩ := hfile
      have hfst : file = covered := congrArg Prod.fst heq
      have hrevision : old.revision = cur.revision := congrArg (fun v => v.2.1) heq
      exact ⟨old, hfst ▸ hold, hrevision⟩
    obtain ⟨old, hold, holdrev⟩ := hversionOf
    have hle := t.bounded b hbmem covered old hold
    have hpair := t.revisions
    rcases split_cases (hsplit.symm.trans hsplit') with ⟨m, rfl, hpost'⟩ | ⟨_, _, rfl⟩ | ⟨m, _, rfl⟩
    · rw [hsplit', List.pairwise_append] at hpair
      have := hpair.2.2 b (by simp) x List.mem_cons_self
      omega
    · exact hlast y hy hchange
    · exact hlast y (by simp [hy]) hchange

theorem takeFeedback_none (hnone : s.takeFeedback.1 = none) (hprompted : s.prompted = false) :
    s.overflow = false ∧ ∀ (f : CompletionFile) cur, s.files[f]? = some cur →
      cur.unread = false ∧ s.uncheckedFile f cur = false := by
  unfold ReviewState.takeFeedback at hnone
  dsimp only at hnone
  split_ifs at hnone with hquiet
  rw [hprompted] at hquiet
  rcases hquiet with hp | ⟨hunread, hoverflow, hunchecked, _⟩
  · cases hp
  refine ⟨hoverflow, ?_⟩
  intro f cur hcur
  have hmem := Table.mem_toList.mpr hcur
  constructor
  · exact Bool.eq_false_iff.mpr (List.any_eq_false.mp hunread (f, cur) hmem)
  · by_contra hne
    have hin : (f, cur) ∈ s.files.toList.filter fun entry => s.uncheckedFile entry.1 entry.2 :=
      List.mem_filter.mpr ⟨hmem, by simpa using hne⟩
    rw [List.take_eq_nil_iff] at hunchecked
    rcases hunchecked with h5 | hnil
    · cases h5
    · rw [List.map_eq_nil_iff] at hnil
      rw [hnil] at hin
      cases hin

/-- **Completion review.**  A session that has given no reminder and gives none now has current evidence: no gap was
recorded, every tracked file was read back after its last change through a checkpoint taken after it, and every contract
a last edit requires passed in its last attempt, begun after the file's last change with its digest of now.  The
reminder is given at most once. -/
theorem no_feedback_means_current_evidence (S : Session) (hr : Reaches Session.call Session.Honest {} S)
    (hlen : countedCalls S.history < 2 ^ 64) :
    (S.state.takeFeedback.1 = none → (∀ y ∈ S.history, ¬y.Prompts) → CurrentEvidence S) ∧
      S.history.Pairwise fun y z => y.Prompts → ¬z.Prompts := by
  have t := traced_of_reaches hr hlen
  refine ⟨?_, t.prompts_once⟩
  intro hnone hquiet
  have hprompted : S.state.prompted = false := by
    by_contra hp
    obtain ⟨y, hy, hpr⟩ := t.prompts.mp (by simpa using hp)
    exact hquiet y hy hpr
  obtain ⟨hoverflow, hfiles⟩ := takeFeedback_none hnone hprompted
  have hgap := t.gaps hoverflow
  refine ⟨hgap, ?_, ?_⟩
  · intro f cur hcur
    obtain ⟨pre, x, post, hsplit, hx, hpost, _, hread⟩ := (t.files f cur hcur).changed
    exact ⟨pre, x, post, hsplit, hx, hpost, hread (hfiles f cur hcur).1⟩
  · intro f cur hcur
    obtain ⟨pre, x, post, hsplit, hedit, hpost⟩ := (t.files f cur hcur).edited
    refine ⟨pre, x, post, cur.requiresCheck, cur.requiredContracts, hsplit, hedit, hpost, ?_⟩
    intro hreq
    have hchecked := (hfiles f cur hcur).2
    simp only [ReviewState.uncheckedFile, hreq, Bool.true_and, Bool.or_eq_false_iff] at hchecked
    obtain ⟨⟨_, hnonempty⟩, hall⟩ := hchecked
    refine ⟨by simpa using hnonempty, ?_⟩
    intro contract hc
    have hcovered := List.any_eq_false.mp hall contract hc
    exact t.passed hgap hcur (by simpa using hcovered)

namespace Sample

def edited : CompletionFile := ("workspace", "src/lib.rs")

def attempt : CompletionAttempt := { id := 1, contract := "tests", versions := [(edited, 1, some "digest")] }

def verified : Session :=
  run Session.call {}
    [.recordEdit edited (some "digest") true ["tests"], .checkpoint, .readBack 1 edited (some "digest"),
      .beginCheck "tests" [edited], .finishCheck attempt .passed]

theorem verified_reached : Reaches Session.call Session.Honest {} verified := by
  have h₁ : Reaches Session.call Session.Honest {} _ :=
    .next (ReviewCall.recordEdit edited (some "digest") true ["tests"]) .start trivial
  have h₂ := h₁.next ReviewCall.checkpoint trivial
  have h₃ := h₂.next (ReviewCall.readBack 1 edited (some "digest"))
    ⟨_, List.mem_append_right _ (List.mem_singleton.mpr rfl), by decide +kernel⟩
  have h₄ := h₃.next (ReviewCall.beginCheck "tests" [edited]) trivial
  exact h₄.next (ReviewCall.finishCheck attempt .passed)
    ⟨_, List.mem_append_right _ (List.mem_singleton.mpr rfl), by decide +kernel⟩

end Sample

/-- The sample session needs no reminder, and has current evidence. -/
theorem verified_session_has_evidence :
    Sample.verified.state.takeFeedback.1 = none ∧ CurrentEvidence Sample.verified := by
  have hnone : Sample.verified.state.takeFeedback.1 = none := by decide +kernel
  refine ⟨hnone, ?_⟩
  refine (no_feedback_means_current_evidence Sample.verified Sample.verified_reached (by decide +kernel)).1 hnone ?_
  decide +kernel

end AnimaCore.Completion
