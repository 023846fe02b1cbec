import AnimaCore.Execution.Paging
import AnimaCore.Execution.RoundTrip

/-!
# AnimaCore.Execution.Consistent — the tables of the store, at any two moments

What every sequence of calls leaves behind, whatever they answer: the tables of the store agree with each other, and the
history of a run only grows.
-/

namespace AnimaCore

open Lib

/-- **The tables agree**: every run is bound to its session, every command is recorded in all three tables or in none, a record
is that of its run, and every grant that was consumed is there, at that revision or past it. -/
theorem tables_agree (digests : Digests) (ops : List Op) :
    SessionsBound (run (step digests) State.empty ops) ∧ Aligned (run (step digests) State.empty ops) ∧
      RecordsLinked digests (run (step digests) State.empty ops) ∧ GrantTables (run (step digests) State.empty ops) := by
  have h := @reaches_run _ _ (step digests) State.empty ops
  exact ⟨sessionsBound_of_reaches h, aligned_of_reaches h, recordsLinked_of_reaches h, grantTables_of_reaches h⟩

/-- Every run of a store is there in a later one: its history is in order at both, and only longer in the later one. -/
def HistoryGrows (s s' : State) : Prop :=
  ∀ (key : Uuid × Uuid) a, s.runs[key]? = some a → HistoryOrdered a ∧
    ∃ a', s'.runs[key]? = some a' ∧ HistoryOrdered a' ∧ HistoryExtends a a'

/-- **The history of a run only grows**: its steps and attempts are numbered from one without gaps, and after any further calls
the run is there, each of its steps as it was, each number with what it had, and its events at the front of the log. -/
theorem history_only_grows (digests : Digests) (before after : List Op) :
    HistoryGrows (run (step digests) State.empty before) (run (step digests) State.empty (before ++ after)) := by
  intro key a ha
  have hordered := historyOrdered_of_reaches (@reaches_run _ _ (step digests) State.empty before) ha
  rw [run_append]
  exact ⟨hordered, historyExtends_of_reaches (@reaches_run _ _ (step digests) _ after) ha hordered⟩

end AnimaCore
