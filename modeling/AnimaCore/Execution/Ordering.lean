import AnimaCore.Execution.History

/-!
# AnimaCore.Execution.Ordering — the order of steps and attempts

A run numbers its steps and its attempts in the order they were stored.

* `HistoryOrdered`: the order tables number exactly the stored steps and attempts, from one to the next sequence.
* `AddsInTurn`: a new attempt of a commit is the first of its invocation, or follows the one before it.  The commit does
  not check this; if every commit does so, the attempts of an invocation are stored as `1, 2, 3, …`
  (`attemptsInTurn_of_reaches`).
-/

namespace AnimaCore

open Lib

variable {digests : Digests} {s : State} {ownerId runId : Uuid} {commit : ExecutionCommit} {nowMs : ℕ}
  {patch : CommitPatch} {aggregate : RunAggregate}

/-- Steps and attempts are numbered from one, below the word size. -/
structure HistoryOrdered (a : RunAggregate) : Prop where
  steps : Ordered a.stepOrder a.steps a.nextStepSequence
  attempts : Ordered a.attemptOrder a.attempts a.nextAttemptSequence
  fits : a.nextStepSequence < 2 ^ 64 ∧ a.nextAttemptSequence < 2 ^ 64

theorem findSequence_eq_some {order : Table ℕ AttemptKey} {key : AttemptKey} {n : ℕ}
    (h : findSequence order key = some n) : order[n]? = some key := by
  obtain ⟨⟨m, k⟩, hfind, rfl⟩ := Option.map_eq_some_iff.mp h
  have hkey : k = key := by simpa using List.find?_some hfind
  subst hkey
  exact Table.mem_toList.mp (List.mem_of_find?_eq_some hfind)

namespace Built

theorem nextSequences (b : Built digests s ownerId commit nowMs patch) :
    (b.aggregate.patched patch).nextStepSequence = b.steps.nextSequence ∧
      (b.aggregate.patched patch).nextAttemptSequence = b.attempts.nextSequence :=
  ⟨b.patchSteps_eq.2, b.patchAttempts_eq.2.1⟩

theorem attempt_placed (b : Built digests s ownerId commit nowMs patch) (k : AttemptKey) (n : ℕ)
    (r : InvocationAttemptRecord) (hp : b.attempts.patches[k]? = some (n, r)) (hk : k ∈ b.aggregate.attempts) :
    b.aggregate.attemptOrder[n]? = some k := by
  obtain ⟨existing, hs⟩ := Option.isSome_iff_exists.mp (Table.mem_iff_getElem?_isSome.mp hk)
  exact findSequence_eq_some (b.attemptLoop.moved k n r existing hp hs).2

end Built

theorem historyOrdered_fresh (stored : StoredRun) : HistoryOrdered (.fresh stored) :=
  ⟨.empty, .empty, by simp [RunAggregate.fresh]⟩

theorem historyOrdered_commit (b : Built digests s ownerId commit nowMs patch) (h : HistoryOrdered b.aggregate) :
    HistoryOrdered (b.aggregate.patched patch) := by
  obtain ⟨hnextStep, hnextAttempt⟩ := b.nextSequences
  refine ⟨?_, ?_, ?_, ?_⟩
  · rw [b.stepOrder_after, b.steps_after, hnextStep]
    refine h.steps.extend b.stepLoop.numbered ?_ _
    intro k n step hp hk
    exact absurd hk (b.stepLoop.patched k n step hp).2.2
  · rw [b.attemptOrder_after, b.attempts_after, hnextAttempt]
    exact h.attempts.extend b.attemptLoop.numbered b.attempt_placed _
  · rw [hnextStep]
    obtain hsame | hlt := b.stepLoop.fits
    · rw [hsame]
      exact h.fits.1
    · exact hlt
  · rw [hnextAttempt]
    obtain hsame | hlt := b.attemptLoop.fits
    · rw [hsame]
      exact h.fits.2
    · exact hlt

theorem historyOrdered_of_reaches {allowed : State → Op → Prop} (h : Reaches (step digests) allowed State.empty s)
    {a : RunAggregate} (ha : s.runs[(ownerId, runId)]? = some a) : HistoryOrdered a :=
  runs_invariant (P := fun _ _ a => HistoryOrdered a) h (fun _ _ stored _ _ _ _ => historyOrdered_fresh stored)
    (fun _ _ _ _ hk _ _ => ⟨hk.steps, hk.attempts, hk.fits⟩) (fun _ _ _ _ _ b _ _ _ hk => historyOrdered_commit b hk) ha

/-! ## Attempt numbers -/

/-- The attempt before an attempt of the same invocation. -/
def priorKey (k : AttemptKey) : AttemptKey := (k.1, k.2 - 1)

/-- The attempts of every invocation are stored in turn. -/
def AttemptsInTurn (a : RunAggregate) : Prop := Follows (fun k : AttemptKey => k.2 = 1) priorKey a.attemptOrder

/-- A new attempt of the commit is the first of its invocation, or the one before it is stored or listed before it. -/
def AddsInTurn (a : RunAggregate) (commit : ExecutionCommit) : Prop :=
  ∀ pre r post, commit.attempts = pre ++ r :: post → r.key ∉ a.attempts →
    r.attemptNumber = 1 ∨ priorKey r.key ∈ a.attempts ∨ ∃ r' ∈ pre, r'.key = priorKey r.key

/-- The calls whose commits add attempts in turn. -/
def addsInTurn (s : State) (op : Op) : Prop :=
  match op with
  | .commit ownerId commit _ => ∀ a, s.runs[(ownerId, commit.lease.runId)]? = some a → AddsInTurn a commit
  | _ => True

theorem patchAttempts_inTurn {attempts : AttemptPatches}
    (h : patchAttempts digests runId aggregate commit = .ok attempts) (hturn : AddsInTurn aggregate commit)
    (k : AttemptKey) (n : ℕ) (r : InvocationAttemptRecord) (hp : attempts.patches[k]? = some (n, r))
    (hk : k ∉ aggregate.attempts) :
    k.2 = 1 ∨ priorKey k ∈ aggregate.attempts ∨
      ∃ n' r', attempts.patches[priorKey k]? = some (n', r') ∧ n' < n := by
  -- along the loop, with what the loop has done
  refine (foldlM_induction (P := fun read acc => AttemptLoop runId aggregate read acc ∧
    ∀ (k : AttemptKey) n r, acc.patches[k]? = some (n, r) → k ∉ aggregate.attempts →
      k.2 = 1 ∨ priorKey k ∈ aggregate.attempts ∨ ∃ n' r', acc.patches[priorKey k]? = some (n', r') ∧ n' < n)
    h ⟨.start, ?_⟩ ?_).2 k n r hp hk
  · intro k n r hp
    simp at hp
  · rintro read attempt rest acc acc' hsplit ⟨hloop, hturned⟩ hstep
    refine ⟨hloop.next hstep, ?_⟩
    obtain ⟨_, hcase⟩ := attemptPatchStep_eq_ok hstep
    cases hcase with
    | listed _ => exact hturned
    | @moved existing m d d' hstored _ hlegal hplaced hold hnew =>
      intro k n r hp hk
      have hmem := Table.mem_of_getElem? hstored
      have hne : attempt.key ≠ k := fun heq => hk (heq ▸ hmem)
      rw [Table.getElem?_insert_eq, if_neg hne] at hp
      by_cases hprior : attempt.key = priorKey k
      · exact .inr (.inl (hprior ▸ hmem))
      · rw [Table.getElem?_insert_eq, if_neg hprior]
        exact hturned k n r hp hk
    | @added d hunstored hunlisted hnew hfits =>
      intro k n r hp hk
      rw [Table.getElem?_insert_eq] at hp
      split_ifs at hp with heq
      · -- the new attempt: the one before it has been read
        cases hp
        subst heq
        obtain hone | hin | ⟨r', hr', hkey⟩ := hturn read attempt rest hsplit hk
        · exact .inl hone
        · exact .inr (.inl hin)
        · cases hprior : acc.patches[priorKey attempt.key]? with
          | none => exact .inr (.inl (Table.mem_of_getElem? (hkey ▸ hloop.kept r' hr' (hkey ▸ hprior))))
          | some entry =>
            obtain ⟨n', q⟩ := entry
            by_cases hold : priorKey attempt.key ∈ aggregate.attempts
            · exact .inr (.inl hold)
            · have hne : attempt.key ≠ priorKey attempt.key := by
                intro hsame
                rw [← hsame, hunlisted] at hprior
                cases hprior
              refine .inr (.inr ⟨n', q, ?_, (hloop.numbered.bound _ n' q hprior hold).2⟩)
              rw [Table.getElem?_insert_eq, if_neg hne]
              exact hprior
      · obtain hone | hin | ⟨n', r', hprior, hlt⟩ := hturned k n r hp hk
        · exact .inl hone
        · exact .inr (.inl hin)
        · refine .inr (.inr ⟨n', r', ?_, hlt⟩)
          rw [Table.getElem?_insert_eq, if_neg ?_]
          · exact hprior
          · intro hsame
            rw [← hsame, hunlisted] at hprior
            cases hprior

theorem attemptsInTurn_commit (b : Built digests s ownerId commit nowMs patch) (ho : HistoryOrdered b.aggregate)
    (h : AttemptsInTurn b.aggregate) (hturn : AddsInTurn b.aggregate commit) :
    AttemptsInTurn (b.aggregate.patched patch) := by
  rw [AttemptsInTurn, b.attemptOrder_after]
  exact h.extend ho.attempts b.attemptLoop.numbered b.attempt_placed (patchAttempts_inTurn b.attempts_eq hturn)

theorem attemptsInTurn_of_reaches (h : Reaches (step digests) addsInTurn State.empty s) {a : RunAggregate}
    (ha : s.runs[(ownerId, runId)]? = some a) : AttemptsInTurn a := by
  refine runs_invariant (P := fun _ _ a => AttemptsInTurn a) h ?_ (fun _ _ _ _ hk _ _ => hk) ?_ ha
  · intro _ _ stored _ _ _ _ n k hk
    simp [RunAggregate.fresh] at hk
  · intro s ownerId commit nowMs patch b hr hal _ hk
    exact attemptsInTurn_commit b (historyOrdered_of_reaches hr b.found) hk (hal _ b.found)

end AnimaCore
