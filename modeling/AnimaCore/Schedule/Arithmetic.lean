import AnimaCore.Schedule.SleepHint

/-!
# AnimaCore.Schedule.Arithmetic — the numbers of the scheduler

Every addition, multiplication and cast of `Scheduler::new`, `due_jobs` and `next_due_in_ms` with its machine type; the
saturating operations of an `Every` trigger cannot overflow.

* `WellFormedBy`: what `Scheduler::new` is to check, with the offsets as an argument.  `new_ok_iff`: what it checks.
* `dueLoopChecked`, `nextLoopChecked`: the two loops, `none` where a value does not fit.
-/

namespace AnimaCore.Schedule

open Lib

/-! ## Acceptance -/

/-- The offsets that the documentation of `Scheduler::new` names. -/
def offsetInRange (tz : ℤ) : Prop := -840 ≤ tz ∧ tz ≤ 840

/-- What `Scheduler::new` checks, by the offsets that it takes. -/
structure WellFormedBy (offset : ℤ → Prop) (jobs : List ScheduledJob) : Prop where
  named : ∀ job ∈ jobs, trimmedEmpty job.name = false ∧ trimmedEmpty job.agentName = false ∧
    trimmedEmpty job.prompt = false
  unique : (jobs.map (·.name)).Nodup
  intervals : ∀ job ∈ jobs, ∀ intervalSecs, job.trigger = .every intervalSecs → 0 < intervalSecs
  times : ∀ job ∈ jobs, ∀ hour minute tz, job.trigger = .dailyAt hour minute tz →
    hour < 24 ∧ minute < 60 ∧ offset tz

theorem WellFormedBy.mono {offset offset' : ℤ → Prop} (himp : ∀ tz, offset tz → offset' tz) {jobs : List ScheduledJob}
    (h : WellFormedBy offset jobs) : WellFormedBy offset' jobs :=
  { h with
    times := fun job hm hour minute tz htrigger =>
      ⟨(h.times job hm hour minute tz htrigger).1, (h.times job hm hour minute tz htrigger).2.1,
        himp tz (h.times job hm hour minute tz htrigger).2.2⟩ }

/-- The offsets that `i32::abs` lets through: the least one is its own absolute value. -/
def offsetAccepted (tz : ℤ) : Prop := offsetInRange tz ∨ tz = -2 ^ 31

theorem absI32_le_iff (tz : ℤ) : absI32 tz ≤ maxTzOffsetMinutes ↔ offsetAccepted tz := by
  unfold absI32 maxTzOffsetMinutes offsetAccepted offsetInRange
  by_cases hmin : tz = -2 ^ 31
  · rw [if_pos hmin]
    exact iff_of_true (by rw [hmin]; decide) (Or.inr hmin)
  · rw [if_neg hmin, or_iff_left hmin]
    exact abs_le

theorem validateTrigger_iff (job : ScheduledJob) : job.validateTrigger = .ok () ↔
    (∀ intervalSecs, job.trigger = .every intervalSecs → 0 < intervalSecs) ∧
    ∀ hour minute tz, job.trigger = .dailyAt hour minute tz → hour < 24 ∧ minute < 60 ∧ offsetAccepted tz := by
  unfold ScheduledJob.validateTrigger
  rcases job.trigger with intervalSecs | ⟨hour, minute, tz⟩
  · rw [ensure_eq_ok]
    constructor
    · intro hne
      refine ⟨fun n hn => ?_, fun _ _ _ h => (by cases h)⟩
      cases hn
      exact Nat.pos_of_ne_zero hne
    · exact fun h => Nat.pos_iff_ne_zero.mp (h.1 intervalSecs rfl)
  · simp only [bind_eq_ok, ensure_eq_ok, absI32_le_iff]
    constructor
    · rintro ⟨-, hhour, -, hminute, hoffset⟩
      refine ⟨fun _ h => (by cases h), fun h m t ht => ?_⟩
      cases ht
      exact ⟨hhour, hminute, hoffset⟩
    · intro h
      obtain ⟨hhour, hminute, hoffset⟩ := h.2 hour minute tz rfl
      exact ⟨(), hhour, (), hminute, hoffset⟩

theorem validate_loop_iff (jobs : List ScheduledJob) (seen : List String) :
    (∃ seen', jobs.foldlM ScheduledJob.validate seen = .ok seen') ↔
      WellFormedBy offsetAccepted jobs ∧ ∀ job ∈ jobs, job.name ∉ seen := by
  induction jobs generalizing seen with
  | nil =>
    refine iff_of_true ⟨seen, rfl⟩ ⟨⟨?_, List.nodup_nil, ?_, ?_⟩, ?_⟩
    all_goals exact fun job hm => absurd hm List.not_mem_nil
  | cons job jobs ih =>
    have hstep : (∃ seen', (job :: jobs).foldlM ScheduledJob.validate seen = .ok seen') ↔
        (trimmedEmpty job.name = false ∧ trimmedEmpty job.agentName = false ∧ trimmedEmpty job.prompt = false ∧
          job.name ∉ seen ∧ job.validateTrigger = .ok ()) ∧
        ∃ seen', jobs.foldlM ScheduledJob.validate (job.name :: seen) = .ok seen' := by
      rw [List.foldlM_cons]
      unfold ScheduledJob.validate
      simp only [bind_eq_ok, ensure_eq_ok]
      constructor
      · rintro ⟨seen', names, ⟨_, hname, _, hagent, _, hprompt, _, hfresh, _, htrigger, hnames⟩, hrest⟩
        cases hnames
        exact ⟨⟨hname, hagent, hprompt, hfresh, htrigger⟩, seen', hrest⟩
      · rintro ⟨⟨hname, hagent, hprompt, hfresh, htrigger⟩, seen', hrest⟩
        exact ⟨seen', job.name :: seen, ⟨(), hname, (), hagent, (), hprompt, (), hfresh, (), htrigger, rfl⟩, hrest⟩
    rw [hstep, ih, validateTrigger_iff]
    constructor
    · rintro ⟨⟨hname, hagent, hprompt, hfresh, hevery, hdaily⟩, hrest, hseen⟩
      refine ⟨⟨?_, ?_, ?_, ?_⟩, ?_⟩
      · exact List.forall_mem_cons.mpr ⟨⟨hname, hagent, hprompt⟩, hrest.named⟩
      · rw [List.map_cons, List.nodup_cons]
        refine ⟨fun hmem => ?_, hrest.unique⟩
        obtain ⟨other, hother, heq⟩ := List.mem_map.mp hmem
        exact hseen other hother (heq ▸ List.mem_cons_self)
      · exact List.forall_mem_cons.mpr ⟨hevery, hrest.intervals⟩
      · exact List.forall_mem_cons.mpr ⟨hdaily, hrest.times⟩
      · exact List.forall_mem_cons.mpr
          ⟨hfresh, fun other hother hmem => hseen other hother (List.mem_cons_of_mem _ hmem)⟩
    · rintro ⟨h, hseen⟩
      obtain ⟨hhead, hnamed⟩ := List.forall_mem_cons.mp h.named
      obtain ⟨hevery, hintervals⟩ := List.forall_mem_cons.mp h.intervals
      obtain ⟨hdaily, htimes⟩ := List.forall_mem_cons.mp h.times
      obtain ⟨hfresh, hothers⟩ := List.forall_mem_cons.mp hseen
      have hunique := h.unique
      rw [List.map_cons, List.nodup_cons] at hunique
      refine ⟨⟨hhead.1, hhead.2.1, hhead.2.2, hfresh, hevery, hdaily⟩, ⟨hnamed, hunique.2, hintervals, htimes⟩, ?_⟩
      intro other hother hmem
      rcases List.mem_cons.mp hmem with heq | hmem
      · exact hunique.1 (heq ▸ List.mem_map_of_mem hother)
      · exact hothers other hother hmem

theorem new_ok_iff (jobs : List ScheduledJob) :
    (∃ s, Scheduler.new jobs = .ok s) ↔ WellFormedBy offsetAccepted jobs := by
  have hloop := validate_loop_iff jobs []
  rw [and_iff_left fun job _ => List.not_mem_nil] at hloop
  rw [← hloop]
  unfold Scheduler.new
  constructor
  · rintro ⟨s, hs⟩
    obtain ⟨seen, hseen, -⟩ := bind_eq_ok.mp hs
    exact ⟨seen, hseen⟩
  · rintro ⟨seen, hseen⟩
    exact ⟨_, bind_eq_ok.mpr ⟨seen, hseen, rfl⟩⟩

/-! ## Checked arithmetic -/

/-- A value of type `i64`. -/
def checkI64 (z : ℤ) : Option ℤ := if -2 ^ 63 ≤ z ∧ z < 2 ^ 63 then some z else none

/-- A value of type `u32`. -/
def checkU32 (z : ℤ) : Option ℤ := if 0 ≤ z ∧ z < 2 ^ 32 then some z else none

/-- `now_ms as i64`, if it keeps the value. -/
def castI64 (nowMs : ℕ) : Option ℤ := if nowMs < 2 ^ 63 then some (asI64 nowMs) else none

/-- `local_ms`. -/
def localMsChecked (nowMs : ℕ) (tz : ℤ) : Option ℤ := do
  let now ← castI64 nowMs
  let offset ← checkI64 (tz * minuteMs)
  checkI64 (now + offset)

/-- `local_minutes_of_day`. -/
def localMinutesOfDayChecked (localMs : ℤ) : Option ℤ := do
  let ofDay ← checkI64 (localMs % dayMs)
  checkU32 (ofDay / minuteMs)

def firesChecked (trigger : ScheduleTrigger) (st : FireState) (nowMs : ℕ) : Option Bool :=
  match trigger with
  | .every intervalSecs => some (fires (.every intervalSecs) st nowMs)
  | .dailyAt hour minute tz => do
    let localNow ← localMsChecked nowMs tz
    let day ← checkI64 (localNow / dayMs)
    let minutes ← localMinutesOfDayChecked localNow
    let hours ← checkU32 (hour * 60)
    let target ← checkU32 (hours + minute)
    return decide (target ≤ minutes) && decide (st.lastFiredDay ≠ some day)

/-- The loop of `due_jobs`; a job that fired is recorded with the local day computed once more. -/
def dueLoopChecked (nowMs : ℕ) : List ScheduledJob → List FireState → Option (List ScheduledJob × List FireState)
  | job :: jobs, st :: sts =>
    if !job.enabled then do
      let rest ← dueLoopChecked nowMs jobs sts
      return (rest.1, st :: rest.2)
    else do
      let fired ← firesChecked job.trigger st nowMs
      let rest ← dueLoopChecked nowMs jobs sts
      if fired then return (job :: rest.1, st.record job.trigger nowMs :: rest.2) else return (rest.1, st :: rest.2)
  | _, _ => some ([], [])

def fireDayChecked (firedToday : Bool) (day : ℤ) : Option ℤ := if !firedToday then some day else checkI64 (day + 1)

/-- The wait of an enabled job; `some none` where the source returns `Some(0)` at once. -/
def waitChecked (trigger : ScheduleTrigger) (st : FireState) (nowMs : ℕ) : Option (Option ℕ) :=
  match trigger with
  | .every intervalSecs => some (jobWait (.every intervalSecs) st nowMs)
  | .dailyAt hour minute tz => do
    let localNow ← localMsChecked nowMs tz
    let day ← checkI64 (localNow / dayMs)
    let hours ← checkI64 (hour * 60)
    let targetMin ← checkI64 (hours + minute)
    let minutes ← localMinutesOfDayChecked localNow
    if !decide (st.lastFiredDay = some day) && decide (targetMin ≤ minutes) then return none
    else
      let fireDay ← fireDayChecked (decide (st.lastFiredDay = some day)) day
      let dayStart ← checkI64 (fireDay * dayMs)
      let behind ← checkI64 (targetMin * minuteMs)
      let fireLocalMs ← checkI64 (dayStart + behind)
      let wait ← checkI64 (fireLocalMs - localNow)
      return some (max wait 0).toNat

/-- The loop of `next_due_in_ms`. -/
def nextLoopChecked (nowMs : ℕ) : List ScheduledJob → List FireState → Option ℕ → Option (Option ℕ)
  | job :: jobs, st :: sts, best =>
    if !job.enabled then nextLoopChecked nowMs jobs sts best
    else
      match waitChecked job.trigger st nowMs with
      | none => none
      | some none => some (some 0)
      | some (some wait) => nextLoopChecked nowMs jobs sts (some (best.elim wait fun current => min current wait))
  | _, _, best => some best

/-! ## One job -/

theorem checkI64_of {z : ℤ} (hlow : -2 ^ 63 ≤ z) (hhigh : z < 2 ^ 63) : checkI64 z = some z := if_pos ⟨hlow, hhigh⟩

theorem checkU32_of {z : ℤ} (hlow : 0 ≤ z) (hhigh : z < 2 ^ 32) : checkU32 z = some z := if_pos ⟨hlow, hhigh⟩

theorem asI64_of_lt {nowMs : ℕ} (h : nowMs < 2 ^ 63) : asI64 nowMs = nowMs := by
  unfold asI64
  have hnat : (BitVec.ofNat 64 nowMs).toNat = nowMs := by
    rw [BitVec.toNat_ofNat]
    exact Nat.mod_eq_of_lt (by omega)
  rw [BitVec.toInt_eq_toNat_of_lt (by omega), hnat]

def TimeFits (nowMs : ℕ) (tz : ℤ) : Prop := nowMs < 2 ^ 63 ∧ nowMs + tz * 60000 < 2 ^ 63

instance (nowMs : ℕ) (tz : ℤ) : Decidable (TimeFits nowMs tz) := inferInstanceAs (Decidable (_ ∧ _))

section

variable {hour minute nowMs : ℕ} {tz : ℤ} {st : FireState}

theorem localMsChecked_eq (htz : offsetInRange tz) :
    localMsChecked nowMs tz = if TimeFits nowMs tz then some (localMs nowMs tz) else none := by
  have hmul : checkI64 (tz * minuteMs) = some (tz * minuteMs) := by
    unfold offsetInRange at htz
    unfold minuteMs
    exact checkI64_of (by omega) (by omega)
  unfold localMsChecked castI64
  by_cases hnow : nowMs < 2 ^ 63
  · rw [if_pos hnow, Option.bind_eq_bind, Option.bind_some, hmul, Option.bind_some]
    unfold localMs checkI64
    refine if_congr ?_ rfl rfl
    rw [asI64_of_lt hnow]
    unfold offsetInRange at htz
    unfold TimeFits minuteMs
    omega
  · rw [if_neg hnow, if_neg fun h => hnow h.1]
    rfl

theorem local_fits (htz : offsetInRange tz) (hfits : TimeFits nowMs tz) :
    (-50400000 ≤ localMs nowMs tz ∧ localMs nowMs tz < 2 ^ 63) ∧
      checkI64 (localMs nowMs tz / dayMs) = some (localDay tz nowMs) ∧
      localMinutesOfDayChecked (localMs nowMs tz) = some (localMinutesOfDay (localMs nowMs tz)) := by
  have hlocal : localMs nowMs tz = nowMs + tz * 60000 := by
    unfold localMs minuteMs
    rw [asI64_of_lt hfits.1]
  have hbound : -50400000 ≤ localMs nowMs tz ∧ localMs nowMs tz < 2 ^ 63 := by
    rw [hlocal]
    unfold offsetInRange at htz
    unfold TimeFits at hfits
    omega
  refine ⟨hbound, ?_, ?_⟩
  · unfold localDay dayMs
    exact checkI64_of (by omega) (by omega)
  · have hday : checkI64 (localMs nowMs tz % dayMs) = some (localMs nowMs tz % dayMs) := by
      unfold dayMs
      exact checkI64_of (by omega) (by omega)
    unfold localMinutesOfDayChecked localMinutesOfDay
    rw [hday, Option.bind_eq_bind, Option.bind_some]
    unfold dayMs minuteMs
    exact checkU32_of (by omega) (by omega)

theorem targetMin_eq (hour minute : ℕ) : ((hour * 60 + minute : ℕ) : ℤ) = (hour : ℤ) * 60 + minute := by
  push_cast
  rfl

theorem fires_eq : fires (.dailyAt hour minute tz) st nowMs =
    (decide ((hour : ℤ) * 60 + minute ≤ localMinutesOfDay (localMs nowMs tz)) &&
      decide (st.lastFiredDay ≠ some (localDay tz nowMs))) := by
  rw [← targetMin_eq]
  rfl

theorem firesChecked_daily (hhour : hour < 24) (hminute : minute < 60) (htz : offsetInRange tz) :
    firesChecked (.dailyAt hour minute tz) st nowMs =
      if TimeFits nowMs tz then some (fires (.dailyAt hour minute tz) st nowMs) else none := by
  unfold firesChecked
  dsimp only
  rw [localMsChecked_eq htz]
  by_cases hfits : TimeFits nowMs tz
  · obtain ⟨-, hday, hminutes⟩ := local_fits htz hfits
    have hhours : checkU32 ((hour : ℤ) * 60) = some ((hour : ℤ) * 60) := checkU32_of (by omega) (by omega)
    have htarget : checkU32 ((hour : ℤ) * 60 + minute) = some ((hour : ℤ) * 60 + minute) :=
      checkU32_of (by omega) (by omega)
    rw [if_pos hfits, if_pos hfits, fires_eq]
    simp only [Option.bind_eq_bind]
    rw [Option.bind_some, hday, Option.bind_some, hminutes, Option.bind_some, hhours, Option.bind_some, htarget]
    rfl
  · rw [if_neg hfits, if_neg hfits]
    rfl

/-- The day a daily job that is not due fires on. -/
def fireDay (tz : ℤ) (st : FireState) (nowMs : ℕ) : ℤ :=
  if st.lastFiredDay = some (localDay tz nowMs) then localDay tz nowMs + 1 else localDay tz nowMs

/-- The next time a daily job fires, on the local clock. -/
def nextFire (hour minute : ℕ) (tz : ℤ) (st : FireState) (nowMs : ℕ) : ℤ :=
  fireDay tz st nowMs * dayMs + ((hour : ℤ) * 60 + minute) * minuteMs

/-- The last day of which an `i64` counts some milliseconds, and the last minute of it: 07:12. -/
def lastDay : ℤ := 106751991167

/-- A minute of a day begins before the last millisecond of an `i64`. -/
def MinuteFits (day : ℤ) (minuteOfDay : ℕ) : Prop := day < lastDay ∨ day = lastDay ∧ minuteOfDay ≤ 7 * 60 + 12

theorem jobWait_eq : jobWait (.dailyAt hour minute tz) st nowMs =
    if fires (.dailyAt hour minute tz) st nowMs then none
    else some (max (nextFire hour minute tz st nowMs - localMs nowMs tz) 0).toNat := by
  have hnew : (!decide (st.lastFiredDay = some (localDay tz nowMs))) =
      decide (st.lastFiredDay ≠ some (localDay tz nowMs)) := (decide_not).symm
  have hday : (if (!decide (st.lastFiredDay = some (localDay tz nowMs))) = true then localDay tz nowMs
      else localDay tz nowMs + 1) = fireDay tz st nowMs := by
    unfold fireDay
    by_cases htoday : st.lastFiredDay = some (localDay tz nowMs)
    · rw [if_pos htoday, decide_eq_true htoday, if_neg (by decide)]
    · rw [if_neg htoday, decide_eq_false htoday, if_pos (by decide)]
  have hdef : jobWait (.dailyAt hour minute tz) st nowMs =
      if (!decide (st.lastFiredDay = some (localDay tz nowMs)) &&
        decide (((hour * 60 + minute : ℕ) : ℤ) ≤ localMinutesOfDay (localMs nowMs tz))) = true then none
      else some (max ((if (!decide (st.lastFiredDay = some (localDay tz nowMs))) = true then localDay tz nowMs
        else localDay tz nowMs + 1) * dayMs + ((hour * 60 + minute : ℕ) : ℤ) * minuteMs - localMs nowMs tz)
        0).toNat := rfl
  rw [hdef, hday, hnew, targetMin_eq, Bool.and_comm, ← fires_eq]
  rfl

theorem behind_fits (hhour : hour < 24) (hminute : minute < 60) :
    0 ≤ ((hour : ℤ) * 60 + minute) * minuteMs ∧ ((hour : ℤ) * 60 + minute) * minuteMs < 86400000 := by
  unfold minuteMs
  omega

theorem nextFire_lt_iff (hhour : hour < 24) (hminute : minute < 60) :
    nextFire hour minute tz st nowMs < 2 ^ 63 ↔ MinuteFits (fireDay tz st nowMs) (hour * 60 + minute) := by
  unfold nextFire MinuteFits lastDay minuteMs dayMs
  omega

theorem fireDay_bounds : localMs nowMs tz - 86400000 < fireDay tz st nowMs * dayMs ∧
    fireDay tz st nowMs * dayMs ≤ localMs nowMs tz + 86400000 := by
  unfold fireDay localDay dayMs
  by_cases htoday : st.lastFiredDay = some (localMs nowMs tz / 86400000)
  · rw [if_pos htoday]
    omega
  · rw [if_neg htoday]
    omega

theorem fireDayChecked_eq (htz : offsetInRange tz) (hfits : TimeFits nowMs tz) :
    fireDayChecked (decide (st.lastFiredDay = some (localDay tz nowMs))) (localDay tz nowMs) =
      some (fireDay tz st nowMs) := by
  have hbound := (local_fits htz hfits).1
  unfold fireDayChecked fireDay
  by_cases htoday : st.lastFiredDay = some (localDay tz nowMs)
  · rw [if_pos htoday, decide_eq_true htoday, if_neg (by decide)]
    unfold localDay dayMs
    exact checkI64_of (by omega) (by omega)
  · rw [if_neg htoday, decide_eq_false htoday, if_pos (by decide)]

theorem fireTime_eq (hhour : hour < 24) (hminute : minute < 60) (htz : offsetInRange tz) (hfits : TimeFits nowMs tz) :
    (do
      let dayStart ← checkI64 (fireDay tz st nowMs * dayMs)
      let behind ← checkI64 (((hour : ℤ) * 60 + minute) * minuteMs)
      let fireLocalMs ← checkI64 (dayStart + behind)
      let wait ← checkI64 (fireLocalMs - localMs nowMs tz)
      return some (max wait 0).toNat) =
    if nextFire hour minute tz st nowMs < 2 ^ 63
    then some (some (max (nextFire hour minute tz st nowMs - localMs nowMs tz) 0).toNat) else none := by
  have hbound := (local_fits htz hfits).1
  have hbehind := behind_fits hhour hminute
  have hday := @fireDay_bounds nowMs tz st
  unfold nextFire
  generalize fireDay tz st nowMs * dayMs = start at *
  generalize ((hour : ℤ) * 60 + minute) * minuteMs = behind at *
  generalize localMs nowMs tz = localNow at *
  have hchecked : checkI64 behind = some behind := checkI64_of (by omega) (by omega)
  by_cases hfire : start + behind < 2 ^ 63
  · have hstart : checkI64 start = some start := checkI64_of (by omega) (by omega)
    have hsum : checkI64 (start + behind) = some (start + behind) := checkI64_of (by omega) hfire
    have hwait : checkI64 (start + behind - localNow) = some (start + behind - localNow) :=
      checkI64_of (by omega) (by omega)
    rw [if_pos hfire]
    simp only [Option.bind_eq_bind, Option.bind_some, hstart, hchecked, hsum, hwait]
    rfl
  · have hnone : checkI64 (start + behind) = none := if_neg fun h => hfire h.2
    rw [if_neg hfire]
    by_cases hlt : start < 2 ^ 63
    · have hstart : checkI64 start = some start := checkI64_of (by omega) hlt
      simp only [Option.bind_eq_bind, Option.bind_some, hstart, hchecked, hnone, Option.bind_none]
    · have hstart : checkI64 start = none := if_neg fun h => hlt h.2
      simp only [Option.bind_eq_bind, hstart, Option.bind_none]

theorem waitChecked_daily (hhour : hour < 24) (hminute : minute < 60) (htz : offsetInRange tz) :
    waitChecked (.dailyAt hour minute tz) st nowMs =
      if TimeFits nowMs tz ∧
        (fires (.dailyAt hour minute tz) st nowMs = true ∨ nextFire hour minute tz st nowMs < 2 ^ 63)
      then some (jobWait (.dailyAt hour minute tz) st nowMs) else none := by
  unfold waitChecked
  dsimp only
  rw [localMsChecked_eq htz]
  by_cases hfits : TimeFits nowMs tz
  · obtain ⟨hbound, hday, hminutes⟩ := local_fits htz hfits
    have hhours : checkI64 ((hour : ℤ) * 60) = some ((hour : ℤ) * 60) := checkI64_of (by omega) (by omega)
    have htarget : checkI64 ((hour : ℤ) * 60 + minute) = some ((hour : ℤ) * 60 + minute) :=
      checkI64_of (by omega) (by omega)
    have hfires : (!decide (st.lastFiredDay = some (localDay tz nowMs)) &&
        decide ((hour : ℤ) * 60 + minute ≤ localMinutesOfDay (localMs nowMs tz))) =
          fires (.dailyAt hour minute tz) st nowMs := by
      rw [fires_eq, Bool.and_comm, decide_not]
    have htime := @fireTime_eq hour minute nowMs tz st hhour hminute htz hfits
    rw [if_pos hfits, jobWait_eq]
    simp only [Option.bind_eq_bind] at htime ⊢
    rw [Option.bind_some, hday, Option.bind_some, hhours, Option.bind_some, htarget, Option.bind_some, hminutes,
      Option.bind_some, hfires, fireDayChecked_eq htz hfits, Option.bind_some, htime]
    by_cases hdue : fires (.dailyAt hour minute tz) st nowMs = true
    · rw [if_pos hdue, if_pos hdue, if_pos ⟨hfits, Or.inl hdue⟩]
      rfl
    · rw [if_neg hdue, if_neg hdue]
      exact if_congr ⟨fun h => ⟨hfits, Or.inr h⟩, fun h => h.2.resolve_left hdue⟩ rfl rfl
  · rw [if_neg hfits, if_neg fun h => hfits h.1]
    rfl

end

/-! ## The loops -/

/-- Every daily job that is enabled gives a local time that fits. -/
def TimesFit (nowMs : ℕ) (entries : List (ScheduledJob × FireState)) : Prop :=
  ∀ e ∈ entries, e.1.enabled = true → ∀ hour minute tz, e.1.trigger = .dailyAt hour minute tz → TimeFits nowMs tz

/-- A daily job that is due, where `next_due_in_ms` ends. -/
def DailyDue (nowMs : ℕ) (e : ScheduledJob × FireState) : Prop :=
  (∃ hour minute tz, e.1.trigger = .dailyAt hour minute tz) ∧ e.1.due e.2 nowMs = true

/-- Every enabled daily job up to the first that is due fires next on a minute that fits. -/
def NextFits (nowMs : ℕ) (entries : List (ScheduledJob × FireState)) : Prop :=
  ∀ front e rest, entries = front ++ e :: rest → (∀ e' ∈ front, ¬DailyDue nowMs e') → ¬DailyDue nowMs e →
    e.1.enabled = true → ∀ hour minute tz, e.1.trigger = .dailyAt hour minute tz →
      MinuteFits (fireDay tz e.2 nowMs) (hour * 60 + minute)

theorem nextFits_cons {nowMs : ℕ} {e : ScheduledJob × FireState} {entries : List (ScheduledJob × FireState)} :
    NextFits nowMs (e :: entries) ↔ (¬DailyDue nowMs e → (e.1.enabled = true → ∀ hour minute tz,
      e.1.trigger = .dailyAt hour minute tz → MinuteFits (fireDay tz e.2 nowMs) (hour * 60 + minute)) ∧
        NextFits nowMs entries) := by
  constructor
  · intro h hdue
    refine ⟨fun henabled => h [] e entries rfl (fun e' he' => absurd he' List.not_mem_nil) hdue henabled, ?_⟩
    intro front e' rest heq hfront
    exact h (e :: front) e' rest (by rw [heq]; rfl) (List.forall_mem_cons.mpr ⟨hdue, hfront⟩)
  · intro h front e' rest heq hfront hdue
    rcases front with _ | ⟨first, front⟩
    · cases heq
      exact (h hdue).1
    · cases heq
      obtain ⟨hfirst, hothers⟩ := List.forall_mem_cons.mp hfront
      exact (h hfirst).2 front e' rest rfl hothers hdue

theorem timesFit_cons {nowMs : ℕ} {e : ScheduledJob × FireState} {entries : List (ScheduledJob × FireState)} :
    TimesFit nowMs (e :: entries) ↔ (e.1.enabled = true → ∀ hour minute tz, e.1.trigger = .dailyAt hour minute tz →
      TimeFits nowMs tz) ∧ TimesFit nowMs entries := List.forall_mem_cons

/-- The trigger of a job in range, as one value. -/
def TriggerInRange (trigger : ScheduleTrigger) : Prop :=
  ∀ hour minute tz, trigger = .dailyAt hour minute tz → hour < 24 ∧ minute < 60 ∧ offsetInRange tz

theorem firesChecked_eq {trigger : ScheduleTrigger} (h : TriggerInRange trigger) (st : FireState) (nowMs : ℕ) :
    firesChecked trigger st nowMs = some (fires trigger st nowMs) ∧
        (∀ hour minute tz, trigger = .dailyAt hour minute tz → TimeFits nowMs tz) ∨
      firesChecked trigger st nowMs = none ∧
        ¬∀ hour minute tz, trigger = .dailyAt hour minute tz → TimeFits nowMs tz := by
  cases trigger with
  | every intervalSecs => exact Or.inl ⟨rfl, fun _ _ _ heq => by cases heq⟩
  | dailyAt hour minute tz =>
    obtain ⟨hhour, hminute, htz⟩ := h hour minute tz rfl
    have heq := @firesChecked_daily hour minute nowMs tz st hhour hminute htz
    by_cases hfits : TimeFits nowMs tz
    · rw [if_pos hfits] at heq
      refine Or.inl ⟨heq, fun h m t ht => ?_⟩
      cases ht
      exact hfits
    · rw [if_neg hfits] at heq
      exact Or.inr ⟨heq, fun hall => hfits (hall hour minute tz rfl)⟩

theorem dueLoop_cons (nowMs : ℕ) (job : ScheduledJob) (jobs : List ScheduledJob) (st : FireState)
    (sts : List FireState) :
    dueLoop nowMs (job :: jobs) (st :: sts) =
      if job.due st nowMs
      then (job :: (dueLoop nowMs jobs sts).1, st.record job.trigger nowMs :: (dueLoop nowMs jobs sts).2)
      else ((dueLoop nowMs jobs sts).1, st :: (dueLoop nowMs jobs sts).2) := rfl

theorem dueLoopChecked_eq {nowMs : ℕ} (jobs : List ScheduledJob) (sts : List FireState)
    (h : ∀ job ∈ jobs, TriggerInRange job.trigger) :
    (TimesFit nowMs (jobs.zip sts) → dueLoopChecked nowMs jobs sts = some (dueLoop nowMs jobs sts)) ∧
      ((dueLoopChecked nowMs jobs sts).isSome = true → TimesFit nowMs (jobs.zip sts)) := by
  induction jobs generalizing sts with
  | nil => exact ⟨fun _ => rfl, fun _ e he => absurd he List.not_mem_nil⟩
  | cons job jobs ih =>
    rcases sts with _ | ⟨st, sts⟩
    · exact ⟨fun _ => rfl, fun _ e he => absurd he List.not_mem_nil⟩
    · obtain ⟨hjob, hrest⟩ := List.forall_mem_cons.mp h
      obtain ⟨ihfits, ihsome⟩ := ih sts hrest
      rw [List.zip_cons_cons, timesFit_cons]
      unfold dueLoopChecked
      by_cases henabled : job.enabled = true
      · have hon : ¬(!job.enabled) = true := by rw [henabled]; decide
        rw [if_neg hon]
        rcases firesChecked_eq hjob st nowMs with ⟨hchecked, hfits⟩ | ⟨hchecked, hover⟩
        · rw [hchecked, Option.bind_eq_bind, Option.bind_some]
          refine ⟨fun hall => ?_, fun hsome => ⟨fun _ => hfits, ihsome ?_⟩⟩
          · have hdue : job.due st nowMs = fires job.trigger st nowMs := by
              unfold ScheduledJob.due
              rw [henabled, Bool.true_and]
            rw [ihfits hall.2, Option.bind_eq_bind, Option.bind_some, dueLoop_cons, hdue]
            by_cases hfires : fires job.trigger st nowMs = true
            · rw [if_pos hfires, if_pos hfires]
              rfl
            · rw [if_neg hfires, if_neg hfires]
              rfl
          · rcases hloop : dueLoopChecked nowMs jobs sts with _ | rest
            · rw [hloop] at hsome
              cases hsome
            · rfl
        · rw [hchecked]
          exact ⟨fun hall => absurd (hall.1 henabled) hover, by rintro ⟨⟩⟩
      · have hoff : (!job.enabled) = true := by simpa using henabled
        rw [if_pos hoff]
        refine ⟨fun hall => ?_, fun hsome => ⟨fun h => absurd h henabled, ihsome ?_⟩⟩
        · rw [ihfits hall.2]
          have hdue : job.due st nowMs = false := by
            unfold ScheduledJob.due
            rw [Bool.not_eq_true] at henabled
            rw [henabled, Bool.false_and]
          rw [dueLoop_cons, hdue]
          rfl
        · rcases hloop : dueLoopChecked nowMs jobs sts with _ | rest
          · rw [hloop] at hsome
            cases hsome
          · rfl

theorem nextLoopChecked_eq {nowMs : ℕ} (jobs : List ScheduledJob) (sts : List FireState) (best : Option ℕ)
    (h : ∀ job ∈ jobs, TriggerInRange job.trigger) (htimes : TimesFit nowMs (jobs.zip sts)) :
    (NextFits nowMs (jobs.zip sts) → nextLoopChecked nowMs jobs sts best = some (nextLoop nowMs jobs sts best)) ∧
      ((nextLoopChecked nowMs jobs sts best).isSome = true → NextFits nowMs (jobs.zip sts)) := by
  have hempty : NextFits nowMs [] := fun front e rest heq => by
    rw [List.nil_eq, List.append_eq_nil_iff] at heq
    cases heq.2
  induction jobs generalizing sts best with
  | nil => exact ⟨fun _ => rfl, fun _ => hempty⟩
  | cons job jobs ih =>
    rcases sts with _ | ⟨st, sts⟩
    · exact ⟨fun _ => rfl, fun _ => hempty⟩
    · obtain ⟨hjob, hrest⟩ := List.forall_mem_cons.mp h
      rw [List.zip_cons_cons, timesFit_cons] at htimes
      rw [List.zip_cons_cons, nextFits_cons]
      unfold nextLoopChecked nextLoop
      by_cases henabled : job.enabled = true
      · have hon : ¬(!job.enabled) = true := by rw [henabled]; decide
        rw [if_neg hon, if_neg hon]
        rcases htrigger : job.trigger with intervalSecs | ⟨hour, minute, tz⟩
        · obtain ⟨wait, hwait⟩ : ∃ wait, jobWait (.every intervalSecs) st nowMs = some wait := by
            unfold jobWait
            rcases st.lastFiredMs with _ | last
            · exact ⟨_, rfl⟩
            · exact ⟨_, rfl⟩
          have hnotDue : ¬DailyDue nowMs (job, st) := by
            rintro ⟨⟨hour, minute, tz, heq⟩, -⟩
            rw [htrigger] at heq
            cases heq
          have hchecked : waitChecked (.every intervalSecs) st nowMs = some (some wait) := congrArg some hwait
          rw [hchecked, hwait]
          obtain ⟨ihfits, ihsome⟩ := ih sts (some (best.elim wait fun current => min current wait)) hrest htimes.2
          refine ⟨fun hall => ihfits (hall hnotDue).2, fun hsome _ => ⟨fun _ _ _ _ heq => ?_, ihsome hsome⟩⟩
          cases heq
        · obtain ⟨hhour, hminute, htz⟩ := hjob hour minute tz htrigger
          have hfits := htimes.1 henabled hour minute tz htrigger
          have hchecked := @waitChecked_daily hour minute nowMs tz st hhour hminute htz
          have hdue : DailyDue nowMs (job, st) ↔ fires (.dailyAt hour minute tz) st nowMs = true := by
            unfold DailyDue ScheduledJob.due
            rw [henabled, Bool.true_and, htrigger]
            exact and_iff_right ⟨hour, minute, tz, rfl⟩
          by_cases hfires : fires (.dailyAt hour minute tz) st nowMs = true
          · have hnone : jobWait (.dailyAt hour minute tz) st nowMs = none := by rw [jobWait_eq, if_pos hfires]
            rw [if_pos ⟨hfits, Or.inl hfires⟩, hnone] at hchecked
            rw [hchecked, hnone]
            exact ⟨fun _ => rfl, fun _ hnot => absurd (hdue.mpr hfires) hnot⟩
          · have hnotDue := mt hdue.mp hfires
            obtain ⟨wait, hwait⟩ : ∃ wait, jobWait (.dailyAt hour minute tz) st nowMs = some wait :=
              ⟨_, by rw [jobWait_eq, if_neg hfires]⟩
            by_cases hnext : MinuteFits (fireDay tz st nowMs) (hour * 60 + minute)
            · rw [if_pos ⟨hfits, Or.inr ((nextFire_lt_iff hhour hminute).mpr hnext)⟩, hwait] at hchecked
              rw [hchecked, hwait]
              obtain ⟨ihfits, ihsome⟩ := ih sts (some (best.elim wait fun current => min current wait)) hrest htimes.2
              refine ⟨fun hall => ihfits (hall hnotDue).2, fun hsome _ => ⟨fun _ h m t heq => ?_, ihsome hsome⟩⟩
              cases heq
              exact hnext
            · rw [if_neg fun hboth => hboth.2.elim hfires (mt (nextFire_lt_iff hhour hminute).mp hnext)] at hchecked
              rw [hchecked]
              refine ⟨fun hall => absurd ((hall hnotDue).1 henabled hour minute tz rfl) hnext, by rintro ⟨⟩⟩
      · have hoff : (!job.enabled) = true := by simpa using henabled
        have hnotDue : ¬DailyDue nowMs (job, st) := by
          rintro ⟨-, hdue⟩
          unfold ScheduledJob.due at hdue
          rw [Bool.and_eq_true] at hdue
          exact henabled hdue.1
        rw [if_pos hoff, if_pos hoff]
        obtain ⟨ihfits, ihsome⟩ := ih sts best hrest htimes.2
        exact ⟨fun hall => ihfits (hall hnotDue).2, fun hsome _ => ⟨fun h => absurd h henabled, ihsome hsome⟩⟩

/-! ## The scheduler -/

/-- No value of `due_jobs` and `next_due_in_ms` overflows or wraps. -/
def Scheduler.InRange (s : Scheduler) (nowMs : ℕ) : Prop :=
  (dueLoopChecked nowMs s.jobs s.state).isSome = true ∧ (nextLoopChecked nowMs s.jobs s.state none).isSome = true

/-- The jobs are in order but for an offset that is the least number of its type. -/
def LeastOffset (jobs : List ScheduledJob) : Prop :=
  WellFormedBy offsetAccepted jobs ∧ ∃ job ∈ jobs, ∃ hour minute, job.trigger = .dailyAt hour minute (-2 ^ 31)

/-- **When the arithmetic of the scheduler stays in range.** -/
theorem arithmetic_iff (s : Scheduler) (nowMs : ℕ) :
    (((∃ s', Scheduler.new s.jobs = .ok s') ↔ WellFormedBy offsetInRange s.jobs) ∧
      ((∃ s', Scheduler.new s.jobs = .ok s') → s.InRange nowMs)) ↔
    ¬LeastOffset s.jobs ∧ (WellFormedBy offsetInRange s.jobs →
      TimesFit nowMs (s.jobs.zip s.state) ∧ NextFits nowMs (s.jobs.zip s.state)) := by
  rw [new_ok_iff]
  have hrange : WellFormedBy offsetInRange s.jobs → WellFormedBy offsetAccepted s.jobs :=
    WellFormedBy.mono fun tz h => Or.inl h
  have haccepted : (WellFormedBy offsetAccepted s.jobs ↔ WellFormedBy offsetInRange s.jobs) ↔ ¬LeastOffset s.jobs := by
    constructor
    · rintro hiff ⟨hwf, job, hm, hour, minute, htrigger⟩
      have hoffset := ((hiff.mp hwf).times job hm hour minute _ htrigger).2.2
      unfold offsetInRange at hoffset
      omega
    · intro hnot
      refine ⟨fun hwf => { hwf with times := fun job hm hour minute tz htrigger => ?_ }, hrange⟩
      obtain ⟨hhour, hminute, hoffset⟩ := hwf.times job hm hour minute tz htrigger
      rcases hoffset with hoffset | rfl
      · exact ⟨hhour, hminute, hoffset⟩
      · exact absurd ⟨hwf, job, hm, hour, minute, htrigger⟩ hnot
  rw [haccepted]
  refine and_congr_right fun hnot => ?_
  rw [haccepted.mpr hnot]
  refine imp_congr_right fun hwf => ?_
  have hdue := @dueLoopChecked_eq nowMs s.jobs s.state hwf.times
  constructor
  · rintro ⟨hfirst, hsecond⟩
    have htimes := hdue.2 hfirst
    exact ⟨htimes, (nextLoopChecked_eq s.jobs s.state none hwf.times htimes).2 hsecond⟩
  · rintro ⟨htimes, hnext⟩
    refine ⟨?_, ?_⟩
    · rw [hdue.1 htimes]
      rfl
    · rw [(nextLoopChecked_eq s.jobs s.state none hwf.times htimes).1 hnext]
      rfl

namespace Sample

/-- A daily job with the least offset of its type. -/
def leastOffset : ScheduledJob :=
  { name := "briefing", agentName := "assistant", prompt := "summarise the day", trigger := .dailyAt 8 0 (-2 ^ 31)
    enabled := true }

end Sample

/-- The least offset is accepted. -/
theorem least_offset_accepted : ¬∀ (s : Scheduler) (nowMs : ℕ),
    ((∃ s', Scheduler.new s.jobs = .ok s') ↔ WellFormedBy offsetInRange s.jobs) ∧
      ((∃ s', Scheduler.new s.jobs = .ok s') → s.InRange nowMs) := by
  intro hall
  have hnew : ∃ s', Scheduler.new [Sample.leastOffset] = .ok s' := ⟨_, rfl⟩
  have hwf := (hall ⟨[Sample.leastOffset], [FireState.default], rfl⟩ 0).1.mp hnew
  have hoffset := (hwf.times Sample.leastOffset (List.mem_singleton_self _) 8 0 (-2 ^ 31) rfl).2.2
  unfold offsetInRange at hoffset
  omega

end AnimaCore.Schedule
