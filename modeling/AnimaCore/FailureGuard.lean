import AnimaCore.Approvals
import AnimaCore.Capability
import AnimaCore.Lib.Laps

/-!
# AnimaCore.FailureGuard — the same calls with the same results, three times

`SuccessfulToolCycle` of the runtime: an invocation is warned once when its tool calls go in a circle.  It keeps the
fingerprints of the newest twelve calls that succeeded; a call that did not starts it anew.

* `Watches`: what a guard holds of a history of any length.  `step_watches`: one step keeps it.
-/

namespace AnimaCore.FailureGuard

open Lib RunDelta Approvals

/-- What an observation calls elsewhere; `φ` are the fingerprints. -/
structure Host (φ : Type) where
  /-- `bounded_arguments` -/
  boundedArguments : DataFields → Option (List UInt8)
  /-- SHA-256 of the name, the arguments and the text, each after its length -/
  digest : String → List UInt8 → String → φ

variable {φ : Type} [DecidableEq φ] (host : Host φ)

omit [DecidableEq φ] in
def successFingerprint (call : ToolCall) (result : TaskResult Content) : Option φ :=
  if result.status ≠ .success ∨ result.error.isSome then none
  else do
    let content ← result.data
    if maxCapabilityIdBytes < call.name.utf8ByteSize ∨ maxCapabilityArgumentBytes < content.text.utf8ByteSize ∨
        trimmedEmpty call.name ∨ trimmedEmpty content.text ∨
        (content.attachments.any fun items => !items.isEmpty) ∨ (content.metadata.any fun items => items != .nil) then none
    else do
      let arguments ← host.boundedArguments call.args
      return host.digest call.name arguments content.text

/-- One turn of the loop of `repeated_period`. -/
def laps (period : ℕ) (history : List φ) : Bool :=
  if history.length < period * 3 then false
  else
    let candidate := history.drop (history.length - period * 3)
    -- A constant sequence belongs to another guard.
    if (candidate.take period).all fun item => some item == candidate[0]? then false
    else (candidate.drop period).zipIdx.all fun entry => some entry.1 == candidate[entry.2 % period]?

def repeatedPeriod (history : List φ) : Option ℕ := [2, 3, 4].find? fun period => laps period history

structure SuccessfulToolCycle (φ : Type) where
  history : List φ
  warned : Bool
  deriving DecidableEq

namespace SuccessfulToolCycle

def default : SuccessfulToolCycle φ := { history := [], warned := false }

def resetHistory (guard : SuccessfulToolCycle φ) : SuccessfulToolCycle φ := { guard with history := [] }

/-- `observe`, of a fingerprint. -/
def record (guard : SuccessfulToolCycle φ) (signature : φ) : Bool × SuccessfulToolCycle φ :=
  let history := (if guard.history.length = 12 then guard.history.drop 1 else guard.history) ++ [signature]
  if !guard.warned && (repeatedPeriod history).isSome then (true, { history, warned := true })
  else (false, { guard with history })

end SuccessfulToolCycle

inductive Event
  | reset
  | observe (call : ToolCall) (result : TaskResult Content) (recovered : Bool)

omit [DecidableEq φ] in
/-- The fingerprint that an event records; without one, the guard is reset. -/
def Event.signature : Event → Option φ
  | .reset => none
  | .observe call result recovered => if recovered then none else successFingerprint host call result

namespace SuccessfulToolCycle

def observe (guard : SuccessfulToolCycle φ) (call : ToolCall) (result : TaskResult Content) (recovered : Bool) :
    Bool × SuccessfulToolCycle φ :=
  match (Event.observe call result recovered).signature host with
  | none => (false, guard.resetHistory)
  | some signature => guard.record signature

/-- One event: the answer of an observation, and the guard after it. -/
def step (guard : SuccessfulToolCycle φ) : Event → Option Bool × SuccessfulToolCycle φ
  | .reset => (none, guard.resetHistory)
  | .observe call result recovered =>
    (some (guard.observe host call result recovered).1, (guard.observe host call result recovered).2)

def answers (guard : SuccessfulToolCycle φ) : List Event → List (Option Bool)
  | [] => []
  | event :: events => (guard.step host event).1 :: (guard.step host event).2.answers events

end SuccessfulToolCycle

/-! ## Three laps -/

omit [DecidableEq φ] in
/-- The history ends with three copies of one block of two to four fingerprints that are not all the same. -/
def ThreeLaps (history : List φ) : Prop :=
  ∃ block : List φ, 2 ≤ block.length ∧ block.length ≤ 4 ∧ (¬∀ a ∈ block, ∀ b ∈ block, a = b) ∧ copies 3 block <:+ history

omit [DecidableEq φ] in
theorem all_same_iff {p : ℕ} {candidate : List φ} (hp : 0 < p) (hne : candidate ≠ []) :
    (∀ a ∈ candidate.take p, ∀ b ∈ candidate.take p, a = b) ↔ ∀ item ∈ candidate.take p, some item = candidate[0]? := by
  rcases candidate with _ | ⟨first, rest⟩
  · exact absurd rfl hne
  · obtain ⟨p, rfl⟩ : ∃ q, p = q + 1 := ⟨p - 1, by omega⟩
    rw [List.take_succ_cons, List.getElem?_cons_zero]
    constructor
    · intro hall item hitem
      rw [hall item hitem first List.mem_cons_self]
    · intro hall a ha b hb
      have hab := (hall a ha).trans (hall b hb).symm
      exact Option.some.inj hab

theorem laps_iff {period : ℕ} (hp : 0 < period) (history : List φ) : laps period history = true ↔
    ∃ block : List φ, block.length = period ∧ (¬∀ a ∈ block, ∀ b ∈ block, a = b) ∧ copies 3 block <:+ history := by
  unfold laps
  by_cases hshort : history.length < period * 3
  · rw [if_pos hshort]
    refine iff_of_false Bool.false_ne_true ?_
    rintro ⟨block, hlength, -, hsuffix⟩
    have hle := hsuffix.length_le
    rw [length_copies, hlength] at hle
    omega
  · rw [if_neg hshort]
    have hlength : (history.drop (history.length - period * 3)).length = 3 * period := by
      rw [List.length_drop]
      omega
    have hsuffix : ∀ block : List φ, block.length = period →
        (copies 3 block <:+ history ↔ history.drop (history.length - period * 3) = copies 3 block) := by
      intro block hblock
      rw [List.suffix_iff_eq_drop, length_copies, hblock, Nat.mul_comm 3 period]
      exact eq_comm
    generalize history.drop (history.length - period * 3) = candidate at hlength hsuffix ⊢
    have hne : candidate ≠ [] := by
      rintro rfl
      rw [List.length_nil] at hlength
      omega
    have hfront : (candidate.take period).length = period := by
      rw [List.length_take]
      omega
    -- The block can only be the front of the candidate.
    have hblock : (∃ block : List φ, block.length = period ∧ (¬∀ a ∈ block, ∀ b ∈ block, a = b) ∧ copies 3 block <:+ history) ↔
        (¬∀ a ∈ candidate.take period, ∀ b ∈ candidate.take period, a = b) ∧ candidate = copies 3 (candidate.take period) := by
      constructor
      · rintro ⟨block, hlen, hdiffer, hcopies⟩
        have heq := (hsuffix block hlen).mp hcopies
        have htake : candidate.take period = block := by
          rw [heq, copies_succ, List.take_append_of_le_length (by omega), List.take_of_length_le (by omega)]
        rw [htake]
        exact ⟨hdiffer, heq⟩
      · rintro ⟨hdiffer, heq⟩
        exact ⟨candidate.take period, hfront, hdiffer, (hsuffix _ hfront).mpr heq⟩
    rw [hblock, all_same_iff hp hne, eq_copies_iff (by omega) hlength]
    have hsame : ((candidate.take period).all fun item => some item == candidate[0]?) = true ↔
        ∀ item ∈ candidate.take period, some item = candidate[0]? := by
      rw [List.all_eq_true]
      exact forall₂_congr fun item _ => beq_iff_eq
    have hagain : ((candidate.drop period).zipIdx.all fun entry => some entry.1 == candidate[entry.2 % period]?) = true ↔
        ∀ i, i < candidate.length - period → candidate[period + i]? = candidate[i % period]? := by
      rw [List.all_eq_true]
      constructor
      · intro hall i hi
        have hat : (candidate.drop period)[i]? = some candidate[period + i] := by
          rw [List.getElem?_drop, List.getElem?_eq_getElem (by omega)]
        have hentry := hall (candidate[period + i], i) (List.mem_zipIdx_iff_getElem?.mpr hat)
        rw [beq_iff_eq] at hentry
        rw [List.getElem?_eq_getElem (by omega), hentry]
      · rintro hall ⟨item, i⟩ hmem
        have hat := List.mem_zipIdx_iff_getElem?.mp hmem
        have hlt : i < candidate.length - period := by
          have := (List.getElem?_eq_some_iff.mp hat).1
          rwa [List.length_drop] at this
        rw [List.getElem?_drop, hall i hlt] at hat
        rw [beq_iff_eq]
        exact hat.symm
    show (if _ then false else _) = true ↔ _
    by_cases hconstant : ((candidate.take period).all fun item => some item == candidate[0]?) = true
    · rw [if_pos hconstant]
      exact iff_of_false Bool.false_ne_true fun h => h.1 (hsame.mp hconstant)
    · rw [if_neg hconstant, hagain]
      exact (and_iff_right fun h => hconstant (hsame.mpr h)).symm

theorem repeatedPeriod_isSome_iff (history : List φ) : (repeatedPeriod history).isSome = true ↔ ThreeLaps history := by
  unfold repeatedPeriod ThreeLaps
  rw [List.find?_isSome]
  constructor
  · rintro ⟨period, hperiod, hlaps⟩
    have hrange : 2 ≤ period ∧ period ≤ 4 := by
      simp only [List.mem_cons, List.not_mem_nil, or_false] at hperiod
      omega
    obtain ⟨block, hlength, hdiffer, hsuffix⟩ := (laps_iff (by omega) history).mp hlaps
    exact ⟨block, by omega, by omega, hdiffer, hsuffix⟩
  · rintro ⟨block, hlow, hhigh, hdiffer, hsuffix⟩
    refine ⟨block.length, ?_, (laps_iff (by omega) history).mpr ⟨block, rfl, hdiffer, hsuffix⟩⟩
    simp only [List.mem_cons, List.not_mem_nil, or_false]
    omega

omit [DecidableEq φ] in
theorem threeLaps_lastN (history : List φ) : ThreeLaps (lastN 12 history) ↔ ThreeLaps history := by
  refine exists_congr fun block => and_congr_right fun _ => and_congr_right fun hhigh => and_congr_right fun _ => ?_
  refine suffix_lastN ?_
  rw [length_copies]
  omega

/-! ## Runs -/

omit [DecidableEq φ] in
/-- The fingerprints recorded since the last reset. -/
def since (events : List Event) : List φ :=
  events.foldl (fun recorded event => (event.signature host).elim [] fun signature => recorded ++ [signature]) []

/-- What a guard holds after some events: the newest twelve fingerprints, and whether it has warned. -/
structure Watches (events : List Event) (guard : SuccessfulToolCycle φ) : Prop where
  history : guard.history = lastN 12 (since host events)
  warned : guard.warned = true ↔ ∃ j < events.length, ThreeLaps (since host (events.take (j + 1)))

omit [DecidableEq φ] in
theorem since_concat (events : List Event) (event : Event) : since host (events ++ [event]) =
    (event.signature host).elim [] fun signature => since host events ++ [signature] := by
  unfold since
  rw [List.foldl_append]
  rfl

omit [DecidableEq φ] in
theorem not_threeLaps_nil : ¬ThreeLaps ([] : List φ) := by
  rintro ⟨block, hlow, -, -, hsuffix⟩
  have hle := hsuffix.length_le
  rw [length_copies, List.length_nil] at hle
  omega

omit [DecidableEq φ] in
theorem closed_concat (events : List Event) (event : Event) :
    (∃ j < (events ++ [event]).length, ThreeLaps (since host ((events ++ [event]).take (j + 1)))) ↔
      (∃ j < events.length, ThreeLaps (since host (events.take (j + 1)))) ∨ ThreeLaps (since host (events ++ [event])) := by
  have hbefore : ∀ j < events.length, (events ++ [event]).take (j + 1) = events.take (j + 1) := fun j hj =>
    List.take_append_of_le_length hj
  have hlast : (events ++ [event]).take (events.length + 1) = events ++ [event] :=
    List.take_of_length_le (by rw [List.length_append, List.length_singleton])
  rw [List.length_append, List.length_singleton]
  constructor
  · rintro ⟨j, hj, hlaps⟩
    rcases Nat.lt_succ_iff_lt_or_eq.mp hj with hlt | rfl
    · rw [hbefore j hlt] at hlaps
      exact Or.inl ⟨j, hlt, hlaps⟩
    · rw [hlast] at hlaps
      exact Or.inr hlaps
  · rintro (⟨j, hj, hlaps⟩ | hlaps)
    · exact ⟨j, by omega, by rwa [hbefore j hj]⟩
    · exact ⟨events.length, by omega, by rwa [hlast]⟩

theorem step_eq (guard : SuccessfulToolCycle φ) (event : Event) :
    (guard.step host event).2 = ((event.signature host).elim (false, guard.resetHistory) guard.record).2 ∧
      ((guard.step host event).1 = some true ↔ ((event.signature host).elim (false, guard.resetHistory) guard.record).1 = true) := by
  cases event with
  | reset => exact ⟨rfl, iff_of_false (by rintro ⟨⟩) (by rintro ⟨⟩)⟩
  | observe call result recovered =>
    show (guard.observe host call result recovered).2 = _ ∧ (some (guard.observe host call result recovered).1 = some true ↔ _)
    unfold SuccessfulToolCycle.observe
    rcases (Event.observe call result recovered).signature host with _ | signature
    · exact ⟨rfl, Option.some_inj⟩
    · exact ⟨rfl, Option.some_inj⟩

theorem step_watches {events : List Event} {guard : SuccessfulToolCycle φ} (h : Watches host events guard) (event : Event) :
    Watches host (events ++ [event]) (guard.step host event).2 ∧ ((guard.step host event).1 = some true ↔
      ThreeLaps (since host (events ++ [event])) ∧ ¬∃ j < events.length, ThreeLaps (since host (events.take (j + 1)))) := by
  obtain ⟨hguard, hanswer⟩ := step_eq host guard event
  have hclosed := closed_concat host events event
  have hsince := since_concat host events event
  rw [hanswer]
  rcases hsignature : event.signature host with _ | signature
  · rw [hsignature] at hguard hsince
    rw [Option.elim_none] at hguard hsince
    have hnone : ¬ThreeLaps (since host (events ++ [event])) := by
      rw [hsince]
      exact not_threeLaps_nil
    refine ⟨⟨?_, ?_⟩, iff_of_false Bool.false_ne_true fun hboth => hnone hboth.1⟩
    · rw [hguard, hsince]
      rfl
    · rw [hguard, hclosed, or_iff_left hnone]
      exact h.warned
  · rw [hsignature, Option.elim_some] at hguard hsince
    rw [Option.elim_some]
    have hpush : (if guard.history.length = 12 then guard.history.drop 1 else guard.history) ++ [signature] =
        lastN 12 (since host (events ++ [event])) := by
      rw [h.history, hsince, push_lastN (by omega)]
    have hrepeated : (repeatedPeriod (lastN 12 (since host (events ++ [event])))).isSome = true ↔
        ThreeLaps (since host (events ++ [event])) := by
      rw [repeatedPeriod_isSome_iff, threeLaps_lastN]
    unfold SuccessfulToolCycle.record at hguard ⊢
    rw [hpush] at hguard ⊢
    dsimp only at hguard ⊢
    by_cases hwarned : guard.warned = true
    · have hbefore := h.warned.mp hwarned
      rw [hwarned] at hguard ⊢
      refine ⟨⟨?_, ?_⟩, iff_of_false Bool.false_ne_true fun hboth => hboth.2 hbefore⟩
      · rw [hguard]
        rfl
      · rw [hguard, hclosed]
        exact iff_of_true rfl (Or.inl hbefore)
    · have hbefore := mt h.warned.mpr hwarned
      rw [Bool.not_eq_true] at hwarned
      rw [hwarned] at hguard ⊢
      by_cases hcloses : ThreeLaps (since host (events ++ [event]))
      · have hsome := hrepeated.mpr hcloses
        rw [hsome] at hguard ⊢
        refine ⟨⟨?_, ?_⟩, iff_of_true rfl ⟨hcloses, hbefore⟩⟩
        · rw [hguard]
          rfl
        · rw [hguard, hclosed]
          exact iff_of_true rfl (Or.inr hcloses)
      · have hnone := mt hrepeated.mp hcloses
        rw [Bool.not_eq_true] at hnone
        rw [hnone] at hguard ⊢
        refine ⟨⟨?_, ?_⟩, iff_of_false Bool.false_ne_true fun hboth => hcloses hboth.1⟩
        · rw [hguard]
          rfl
        · rw [hguard, hclosed]
          exact iff_of_false Bool.false_ne_true fun hor => hor.elim hbefore hcloses

omit [DecidableEq φ] in
theorem watches_default : Watches host [] (SuccessfulToolCycle.default (φ := φ)) := by
  refine ⟨rfl, iff_of_false Bool.false_ne_true ?_⟩
  rintro ⟨j, hj, -⟩
  exact absurd hj (Nat.not_lt_zero j)

theorem answers_iff {before : List Event} {guard : SuccessfulToolCycle φ} (h : Watches host before guard) (events : List Event)
    (i : ℕ) : (guard.answers host events)[i]? = some (some true) ↔ i < events.length ∧
      ThreeLaps (since host (before ++ events.take (i + 1))) ∧
      ∀ j < before.length + i, ¬ThreeLaps (since host ((before ++ events).take (j + 1))) := by
  induction events generalizing before guard i with
  | nil =>
    refine iff_of_false (by rintro ⟨⟩) ?_
    rintro ⟨hi, -⟩
    exact absurd hi (Nat.not_lt_zero i)
  | cons event events ih =>
    obtain ⟨hnext, hanswer⟩ := step_watches host h event
    show ((guard.step host event).1 :: (guard.step host event).2.answers host events)[i]? = _ ↔ _
    rcases i with _ | i
    · have hfirst : ∀ j < before.length, (before ++ event :: events).take (j + 1) = before.take (j + 1) := fun j hj =>
        List.take_append_of_le_length hj
      rw [List.getElem?_cons_zero, Option.some_inj, hanswer]
      constructor
      · rintro ⟨hlaps, hnone⟩
        refine ⟨Nat.zero_lt_succ _, hlaps, fun j hj hearly => ?_⟩
        rw [hfirst j (by omega)] at hearly
        exact hnone ⟨j, by omega, hearly⟩
      · rintro ⟨-, hlaps, hnone⟩
        refine ⟨hlaps, ?_⟩
        rintro ⟨j, hj, hearly⟩
        refine hnone j (by omega) ?_
        rwa [hfirst j hj]
    · have hsplit : before ++ event :: events = (before ++ [event]) ++ events := by simp
      rw [List.getElem?_cons_succ, ih hnext i, List.take_succ_cons, hsplit, List.length_append, List.length_singleton,
        List.length_cons, List.append_assoc, List.singleton_append]
      have hlt : i < events.length ↔ i + 1 < events.length + 1 := by omega
      have hsum : before.length + 1 + i = before.length + (i + 1) := by omega
      rw [hlt, hsum]

/-- The guard of an invocation warns at an event. -/
def Warns (events : List Event) (i : ℕ) : Prop :=
  (SuccessfulToolCycle.default.answers host events)[i]? = some (some true)

/-- **The guard is its unbounded specification**: it warns once at most, and does so at the first observation that closes
three laps of the fingerprints recorded since the last reset. -/
theorem warns_once (events : List Event) :
    (∀ i j, Warns host events i → Warns host events j → i = j) ∧
    ∀ i, Warns host events i ↔ (∃ call result recovered, events[i]? = some (.observe call result recovered)) ∧
      ThreeLaps (since host (events.take (i + 1))) ∧ ∀ j < i, ¬ThreeLaps (since host (events.take (j + 1))) := by
  have hwarns : ∀ i, Warns host events i ↔ i < events.length ∧ ThreeLaps (since host (events.take (i + 1))) ∧
      ∀ j < i, ¬ThreeLaps (since host (events.take (j + 1))) := by
    intro i
    have hanswers := answers_iff host (watches_default host) events i
    rw [List.nil_append, List.nil_append, List.length_nil, Nat.zero_add] at hanswers
    exact hanswers
  refine ⟨fun i j hi hj => ?_, fun i => ?_⟩
  · obtain ⟨-, hlapsi, hnonei⟩ := (hwarns i).mp hi
    obtain ⟨-, hlapsj, hnonej⟩ := (hwarns j).mp hj
    rcases Nat.lt_trichotomy i j with hlt | heq | hgt
    · exact absurd hlapsi (hnonej i hlt)
    · exact heq
    · exact absurd hlapsj (hnonei j hgt)
  · rw [hwarns]
    constructor
    · rintro ⟨hi, hlaps, hnone⟩
      refine ⟨?_, hlaps, hnone⟩
      rcases hevent : events[i] with _ | ⟨call, result, recovered⟩
      · -- A reset leaves nothing recorded.
        have htake : events.take (i + 1) = events.take i ++ [.reset] := by
          rw [List.take_succ_eq_append_getElem hi, hevent]
        rw [htake, since_concat] at hlaps
        exact absurd hlaps not_threeLaps_nil
      · exact ⟨call, result, recovered, List.getElem?_eq_some_iff.mpr ⟨hi, hevent⟩⟩
    · rintro ⟨⟨call, result, recovered, hevent⟩, hlaps, hnone⟩
      exact ⟨(List.getElem?_eq_some_iff.mp hevent).1, hlaps, hnone⟩

end AnimaCore.FailureGuard
