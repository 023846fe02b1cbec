import AnimaCore.FailureGuard

/-!
# AnimaCore.FailureGuard.Streaks — the same call with the same result, in a row

`SuccessfulResultStreak` and `ExactFailureStreak` of the runtime count how often one fingerprint was observed in a row, up to
three and up to six.  Each warns when its count comes to three, and six equal failures end the use of tools.

* `Counts`: what a streak holds of the fingerprints recorded since the last reset, however many they are.
* `counts_push`, `counts_warn`: one observation keeps it.
* `streaks_exact`: when the streaks warn, and when the failures are exhausted, over any history.
-/

namespace AnimaCore.FailureGuard

open Lib RunDelta Approvals

/-- What the fingerprint of a failure calls besides. -/
structure FailureHost (φ : Type) extends Host φ where
  /-- the length of `serde_jcs::to_vec` of a result -/
  encodedLength : TaskResult Content → Option ℕ
  /-- SHA-256 of the name, the arguments and the error, each after its length -/
  failureDigest : String → List UInt8 → String → φ

variable {φ : Type}

def fingerprint (host : FailureHost φ) (call : ToolCall) (result : TaskResult Content) : Option φ :=
  if result.status ≠ .error ∨ result.data.isSome then none
  else do
    let error ← result.error
    if maxCapabilityIdBytes < call.name.utf8ByteSize ∨ maxCapabilityArgumentBytes < error.utf8ByteSize then none
    else if trimmedEmpty call.name ∨ trimmedEmpty error then none
    else do
      let arguments ← host.boundedArguments call.args
      let encoded ← host.encodedLength result
      if maxCapabilityArgumentBytes < encoded then none else return host.failureDigest call.name arguments error

/-- The fields of either streak. -/
structure ResultStreak (φ : Type) where
  signature : Option φ
  count : ℕ
  warned : Bool
  deriving DecidableEq

namespace ResultStreak

def default : ResultStreak φ := { signature := none, count := 0, warned := false }

/-- The end of `observe`: a streak that has come to three warns once. -/
def warn (streak : ResultStreak φ) : Bool × ResultStreak φ :=
  if streak.count = 3 ∧ streak.warned = false then (true, { streak with warned := true }) else (false, streak)

end ResultStreak

/-- The fingerprint that an event records as a failure. -/
def Event.failure (host : FailureHost φ) : Event → Option φ
  | .reset => none
  | .observe call result recovered => if recovered then none else fingerprint host call result

/-! ## The count -/

/-- The last `n` fingerprints are one and the same. -/
def InARow (n : ℕ) (recorded : List φ) : Prop := ∃ signature, List.replicate n signature <:+ recorded

/-- The fingerprints recorded since the last reset. -/
def recordedOf (signatures : List (Option φ)) : List φ :=
  signatures.foldl (fun recorded signature => signature.elim [] fun s => recorded ++ [s]) []

/-- What a streak holds of what was recorded: `run` is the number of equal fingerprints at its end, and `told` that it has
warned of them. -/
structure Counts (most : ℕ) (recorded : List φ) (streak : ResultStreak φ) (run : ℕ) (told : Prop) : Prop where
  exact : ∀ n, InARow (n + 1) recorded ↔ n < run
  signature : streak.signature = recorded.getLast?
  count : streak.count = min run most
  warned : streak.warned = true ↔ told

theorem replicate_suffix_concat (n : ℕ) (a s : φ) (recorded : List φ) :
    List.replicate (n + 1) a <:+ recorded ++ [s] ↔ a = s ∧ List.replicate n s <:+ recorded := by
  rw [List.replicate_succ']
  constructor
  · rintro ⟨front, hfront⟩
    rw [← List.append_assoc] at hfront
    obtain ⟨hrest, hsame⟩ := List.append_inj' hfront rfl
    obtain rfl := List.singleton_inj.mp hsame
    exact ⟨rfl, front, hrest⟩
  · rintro ⟨rfl, front, rfl⟩
    exact ⟨front, by rw [List.append_assoc]⟩

theorem inARow_concat (n : ℕ) (s : φ) (recorded : List φ) :
    InARow (n + 1) (recorded ++ [s]) ↔ List.replicate n s <:+ recorded := by
  constructor
  · rintro ⟨a, ha⟩
    exact ((replicate_suffix_concat n a s recorded).mp ha).2
  · intro h
    exact ⟨s, (replicate_suffix_concat n s s recorded).mpr ⟨rfl, h⟩⟩

/-- A row of the last fingerprint is any row, and another fingerprint has none. -/
theorem replicate_suffix_iff (recorded : List φ) (s : φ) (n : ℕ) :
    List.replicate (n + 1) s <:+ recorded ↔ recorded.getLast? = some s ∧ InARow (n + 1) recorded := by
  constructor
  · rintro h
    refine ⟨?_, s, h⟩
    obtain ⟨front, rfl⟩ := h
    rw [List.replicate_succ', ← List.append_assoc, List.getLast?_concat]
  · rintro ⟨hlast, hrow⟩
    obtain ⟨before, rfl⟩ := List.getLast?_eq_some_iff.mp hlast
    exact (replicate_suffix_concat n s s before).mpr ⟨rfl, (inARow_concat n s before).mp hrow⟩

theorem counts_default (most : ℕ) : Counts most ([] : List φ) .default 0 (3 ≤ 0) where
  exact n := by
    refine iff_of_false ?_ (Nat.not_lt_zero n)
    rintro ⟨a, ha⟩
    have hlength := ha.length_le
    rw [List.length_replicate, List.length_nil] at hlength
    omega
  signature := rfl
  count := (Nat.zero_min most).symm
  warned := iff_of_false Bool.false_ne_true (by omega)

theorem counts_warn {most : ℕ} (hmost : 3 ≤ most) {recorded : List φ} {streak : ResultStreak φ} {run : ℕ}
    (h : Counts most recorded streak run (3 < run)) :
    Counts most recorded streak.warn.2 run (3 ≤ run) ∧ (streak.warn.1 = true ↔ run = 3) := by
  have hcount := h.count
  unfold ResultStreak.warn
  by_cases hthree : run = 3
  · have hquiet : streak.warned = false := by
      rw [← Bool.not_eq_true, h.warned]
      omega
    rw [if_pos ⟨by omega, hquiet⟩]
    exact ⟨⟨h.exact, h.signature, hcount, iff_of_true rfl (by omega)⟩, iff_of_true rfl hthree⟩
  · have hnot : ¬(streak.count = 3 ∧ streak.warned = false) := by
      rintro ⟨hc, hw⟩
      have hmore := mt h.warned.mpr (by rw [hw]; exact Bool.false_ne_true)
      omega
    rw [if_neg hnot]
    exact ⟨⟨h.exact, h.signature, hcount, h.warned.trans (by omega)⟩, iff_of_false Bool.false_ne_true hthree⟩

variable [DecidableEq φ]

/-- `observe` of a fingerprint up to its end; the count goes up to `most`. -/
def ResultStreak.push (most : ℕ) (streak : ResultStreak φ) (signature : φ) : ResultStreak φ :=
  if streak.signature = some signature then { streak with count := min (min (streak.count + 1) 255) most }
  else { signature := some signature, count := 1, warned := false }

/-- `observe` of either streak. -/
def ResultStreak.record (most : ℕ) (streak : ResultStreak φ) : Option φ → Bool × ResultStreak φ
  | none => (false, .default)
  | some signature => (streak.push most signature).warn

def ResultStreak.after (most : ℕ) (signatures : List (Option φ)) : ResultStreak φ :=
  signatures.foldl (fun streak signature => (streak.record most signature).2) .default

def SuccessfulResultStreak.observe (host : Host φ) (streak : ResultStreak φ) (call : ToolCall) (result : TaskResult Content)
    (recovered : Bool) : Bool × ResultStreak φ :=
  streak.record 3 (if recovered then none else successFingerprint host call result)

def ExactFailureStreak.observe (host : FailureHost φ) (streak : ResultStreak φ) (call : ToolCall)
    (result : TaskResult Content) (recovered : Bool) : Bool × ResultStreak φ :=
  streak.record 6 (if recovered then none else fingerprint host call result)

omit [DecidableEq φ] in
def ExactFailureStreak.exhausted (streak : ResultStreak φ) : Bool := 6 ≤ streak.count

theorem counts_push {most : ℕ} (hmost : 3 ≤ most ∧ most ≤ 255) {recorded : List φ} {streak : ResultStreak φ}
    {run : ℕ} (h : Counts most recorded streak run (3 ≤ run)) (s : φ) :
    ∃ run', Counts most (recorded ++ [s]) (streak.push most s) run' (3 < run') := by
  have hrow : ∀ n, InARow (n + 1) (recorded ++ [s]) ↔ n = 0 ∨ streak.signature = some s ∧ n - 1 < run := by
    intro n
    rw [inARow_concat, h.signature]
    rcases n with _ | n
    · exact iff_of_true List.nil_suffix (.inl rfl)
    · rw [replicate_suffix_iff, h.exact, or_iff_right (Nat.succ_ne_zero n), Nat.add_sub_cancel]
  have hcount := h.count
  unfold ResultStreak.push
  by_cases hsame : streak.signature = some s
  · rw [if_pos hsame]
    refine ⟨run + 1, fun n => (hrow n).trans ?_, hsame.trans (List.getLast?_concat ..).symm, ?_, h.warned.trans (by omega)⟩
    · rw [and_iff_right hsame]
      omega
    · show min (min (streak.count + 1) 255) most = _
      omega
  · rw [if_neg hsame]
    refine ⟨1, fun n => (hrow n).trans ?_, (List.getLast?_concat ..).symm, by show 1 = _; omega, ?_⟩
    · rw [or_iff_left fun hboth => hsame hboth.1]
      omega
    · exact iff_of_false Bool.false_ne_true (by omega)

theorem counts_after {most : ℕ} (hmost : 3 ≤ most ∧ most ≤ 255) (signatures : List (Option φ)) :
    ∃ run, Counts most (recordedOf signatures) (ResultStreak.after most signatures) run (3 ≤ run) := by
  induction signatures using List.reverseRecOn with
  | nil => exact ⟨0, counts_default most⟩
  | append_singleton signatures signature ih =>
    obtain ⟨run, h⟩ := ih
    unfold recordedOf ResultStreak.after at h ⊢
    rw [List.foldl_concat, List.foldl_concat]
    rcases signature with _ | s
    · exact ⟨0, counts_default most⟩
    · obtain ⟨run', hpushed⟩ := counts_push hmost h s
      exact ⟨run', (counts_warn hmost.1 hpushed).1⟩

/-- **One observation after any history**: the streak warns when three are in a row, and not four. -/
theorem record_iff {most : ℕ} (hmost : 3 ≤ most ∧ most ≤ 255) (signatures : List (Option φ)) (signature : Option φ) :
    ((ResultStreak.after most signatures).record most signature).1 = true ↔
      InARow 3 (recordedOf (signatures ++ [signature])) ∧ ¬InARow 4 (recordedOf (signatures ++ [signature])) := by
  obtain ⟨run, h⟩ := counts_after hmost signatures
  unfold recordedOf at h ⊢
  rw [List.foldl_concat]
  rcases signature with _ | s
  · refine iff_of_false Bool.false_ne_true fun hboth => ?_
    have hlt := ((counts_default most).exact 2).mp hboth.1
    omega
  · obtain ⟨run', hpushed⟩ := counts_push hmost h s
    refine (counts_warn hmost.1 hpushed).2.trans ?_
    show _ ↔ InARow 3 (_ ++ [s]) ∧ ¬InARow 4 (_ ++ [s])
    rw [hpushed.exact 2, hpushed.exact 3]
    omega

/-- **The streaks are exact**, over any history of results and resets: each warns at an observation iff it makes three equal
fingerprints in a row since the last reset, and not four; and the failures are exhausted iff the last six are equal. -/
theorem streaks_exact (host : FailureHost φ) (events : List Event) :
    (∀ call result recovered,
      let now := events ++ [.observe call result recovered]
      ((SuccessfulResultStreak.observe host.toHost (.after 3 (events.map (Event.signature host.toHost))) call result
          recovered).1 = true ↔
        InARow 3 (recordedOf (now.map (Event.signature host.toHost))) ∧
          ¬InARow 4 (recordedOf (now.map (Event.signature host.toHost)))) ∧
      ((ExactFailureStreak.observe host (.after 6 (events.map (Event.failure host))) call result recovered).1 = true ↔
        InARow 3 (recordedOf (now.map (Event.failure host))) ∧ ¬InARow 4 (recordedOf (now.map (Event.failure host))))) ∧
    (ExactFailureStreak.exhausted (.after 6 (events.map (Event.failure host))) = true ↔
      InARow 6 (recordedOf (events.map (Event.failure host)))) := by
  refine ⟨fun call result recovered => ⟨?_, ?_⟩, ?_⟩
  · rw [List.map_append]
    exact record_iff (by omega) _ _
  · rw [List.map_append]
    exact record_iff (by omega) _ _
  · obtain ⟨run, h⟩ := @counts_after φ _ 6 (by omega) (events.map (Event.failure host))
    unfold ExactFailureStreak.exhausted
    rw [decide_eq_true_iff, h.exact 5, h.count]
    omega

end AnimaCore.FailureGuard
