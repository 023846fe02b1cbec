import AnimaCore.Schedule

/-!
# AnimaCore.Schedule.SleepHint — how long a host may sleep

`Scheduler::next_due_in_ms` tells a host how long nothing is due.  It is written apart from `due_jobs`: a wait for each
job, and the least of them, where `due_jobs` tests a threshold.

* `Waits`: a job is not due before its wait is over, and due when it is.
-/

namespace AnimaCore.Schedule

open Lib

/-- The wait of an enabled job, `none` where the source returns `Some(0)` at once. -/
def jobWait (trigger : ScheduleTrigger) (st : FireState) (nowMs : ℕ) : Option ℕ :=
  match trigger with
  | .every intervalSecs =>
    match st.lastFiredMs with
    | none => some 0
    | some last => some (intervalMs intervalSecs - (nowMs - last))
  | .dailyAt hour minute tz =>
    let localNow := localMs nowMs tz
    let day := localNow / dayMs
    let targetMin : ℤ := (hour * 60 + minute : ℕ)
    let firedToday := decide (st.lastFiredDay = some day)
    let reached := decide (targetMin ≤ localMinutesOfDay localNow)
    if !firedToday && reached then none
    else
      let fireDay := if !firedToday then day else day + 1
      let fireLocalMs := fireDay * dayMs + targetMin * minuteMs
      some (max (fireLocalMs - localNow) 0).toNat

/-- The loop of `next_due_in_ms`. -/
def nextLoop (nowMs : ℕ) : List ScheduledJob → List FireState → Option ℕ → Option ℕ
  | job :: jobs, st :: sts, best =>
    if !job.enabled then nextLoop nowMs jobs sts best
    else
      match jobWait job.trigger st nowMs with
      | none => some 0
      | some wait => nextLoop nowMs jobs sts (some (best.elim wait fun current => min current wait))
  | _, _, best => best

def Scheduler.nextDueInMs (s : Scheduler) (nowMs : ℕ) : Option ℕ := nextLoop nowMs s.jobs s.state none

/-- The scheduler after a sequence of `due_jobs` calls. -/
def Scheduler.after (s : Scheduler) (ticks : List ℕ) : Scheduler := ticks.foldl (fun s t => (s.dueJobs t).2) s

/-! ## One job -/

/-- Times whose sums with a time-zone offset stay in an `i64`. -/
def timeBound : ℕ := 2 ^ 62

/-- A job does not fire before `wait` is over, and fires when it is. -/
structure Waits (trigger : ScheduleTrigger) (st : FireState) (nowMs wait : ℕ) : Prop where
  quiet : ∀ d < wait, nowMs + d < timeBound → fires trigger st (nowMs + d) = false
  due : nowMs + wait < timeBound → fires trigger st (nowMs + wait) = true

variable {job : ScheduledJob} {jobs : List ScheduledJob} {st : FireState} {sts : List FireState} {s : Scheduler}
  {nowMs wait : ℕ}

theorem waits_every (intervalSecs : ℕ) (hlast : ∀ last ∈ st.lastFiredMs, last ≤ nowMs) :
    ∃ w, jobWait (.every intervalSecs) st nowMs = some w ∧ Waits (.every intervalSecs) st nowMs w := by
  cases hl : st.lastFiredMs with
  | none =>
    refine ⟨0, by simp [jobWait, hl], fun d hd => absurd hd (Nat.not_lt_zero d), fun _ => ?_⟩
    simp [fires, hl]
  | some last =>
    have hle : last ≤ nowMs := hlast last hl
    refine ⟨intervalMs intervalSecs - (nowMs - last), by simp [jobWait, hl], ?_, ?_⟩
    · intro d hd _
      simp only [fires, hl, decide_eq_false_iff_not]
      omega
    · intro _
      simp only [fires, hl, decide_eq_true_eq]
      omega

/-- The target minute of a local day, in milliseconds behind its midnight. -/
def targetMs (hour minute : ℕ) : ℤ := (hour * 60 + minute : ℕ) * minuteMs

theorem reached_iff {L target : ℤ} : target ≤ localMinutesOfDay L ↔ target * minuteMs ≤ L % dayMs := by
  unfold localMinutesOfDay minuteMs
  exact Int.le_ediv_iff_mul_le (by decide)

theorem fires_daily {hour minute : ℕ} {tz L : ℤ} (hL : localMs nowMs tz = L) :
    fires (.dailyAt hour minute tz) st nowMs = true ↔
      targetMs hour minute ≤ L % dayMs ∧ st.lastFiredDay ≠ some (L / dayMs) := by
  simp only [fires, reached, localDay, hL, Bool.and_eq_true, decide_eq_true_eq, reached_iff]
  rfl

theorem waits_daily {hour minute : ℕ} {tz : ℤ} (htrigger : job.trigger = .dailyAt hour minute tz)
    (hv : job.validateTrigger = .ok ()) (hnow : nowMs < timeBound) :
    Waits (.dailyAt hour minute tz) st nowMs ((jobWait (.dailyAt hour minute tz) st nowMs).getD 0) := by
  have hlocal : ∀ d, nowMs + d < timeBound → localMs (nowMs + d) tz = localMs nowMs tz + d := by
    intro d hd
    have h1 := (localMs_fits hv htrigger hd).1
    have h2 := (localMs_fits hv htrigger hnow).1
    push_cast at h1
    omega
  have htarget : 0 ≤ targetMs hour minute ∧ targetMs hour minute < dayMs := by
    simp only [ScheduledJob.validateTrigger, htrigger, bind_eq_ok, ensure_eq_ok] at hv
    obtain ⟨_, hhour, _, hminute, _⟩ := hv
    unfold targetMs minuteMs dayMs
    omega
  have hdiv : localMs nowMs tz / dayMs * dayMs + localMs nowMs tz % dayMs = localMs nowMs tz :=
    Int.ediv_mul_add_emod _ _
  have hmod : 0 ≤ localMs nowMs tz % dayMs ∧ localMs nowMs tz % dayMs < dayMs := by
    unfold dayMs
    omega
  have hat : ∀ d, nowMs + d < timeBound → (fires (.dailyAt hour minute tz) st (nowMs + d) = true ↔
      targetMs hour minute ≤ (localMs nowMs tz + d) % dayMs ∧ st.lastFiredDay ≠ some ((localMs nowMs tz + d) / dayMs)) :=
    fun d hd => fires_daily (hlocal d hd)
  unfold jobWait
  simp only [reached_iff]
  generalize localMs nowMs tz = L at *
  rw [show ((hour * 60 + minute : ℕ) : ℤ) * minuteMs = targetMs hour minute from rfl]
  generalize targetMs hour minute = T at *
  by_cases hday : st.lastFiredDay = some (L / dayMs)
  · -- fired today: quiet for the rest of the day and until the minute of the next
    simp only [hday, decide_true, Bool.not_true, Bool.false_and, Bool.false_eq_true, if_false, Option.getD_some]
    refine ⟨fun d hd hbound => ?_, fun hbound => ?_⟩
    · rw [Bool.eq_false_iff]
      intro hfires
      obtain ⟨hreach, hnew⟩ := (hat d hbound).mp hfires
      rw [hday] at hnew
      have hnew : L / dayMs ≠ (L + d) / dayMs := fun h => hnew (by rw [h])
      unfold dayMs at *
      omega
    · rw [hat _ hbound, hday]
      have hsum : L + ((max ((L / dayMs + 1) * dayMs + T - L) 0).toNat : ℤ) = (L / dayMs + 1) * dayMs + T := by
        unfold dayMs at *
        omega
      rw [hsum]
      unfold dayMs at *
      refine ⟨by omega, fun h => ?_⟩
      have := Option.some.inj h
      omega
  · by_cases hreach : T ≤ L % dayMs
    · -- due at once
      simp only [hday, hreach, decide_false, Bool.not_false, decide_true, Bool.true_and, if_true, Option.getD_none]
      refine ⟨fun d hd => absurd hd (Nat.not_lt_zero d), fun hbound => ?_⟩
      rw [hat 0 hbound]
      simpa using ⟨hreach, hday⟩
    · -- later today
      simp only [hday, hreach, decide_false, Bool.not_false, Bool.and_false, Bool.false_eq_true, if_false, if_true,
        Option.getD_some]
      refine ⟨fun d hd hbound => ?_, fun hbound => ?_⟩
      · rw [Bool.eq_false_iff]
        intro hfires
        obtain ⟨hreach', -⟩ := (hat d hbound).mp hfires
        unfold dayMs at *
        omega
      · rw [hat _ hbound]
        have hsum : L + ((max (L / dayMs * dayMs + T - L) 0).toNat : ℤ) = L / dayMs * dayMs + T := by
          omega
        rw [hsum]
        unfold dayMs at *
        have hsame : (L / 86400000 * 86400000 + T) / 86400000 = L / 86400000 := by omega
        rw [hsame]
        exact ⟨by omega, hday⟩

/-! ## The loop -/

def Enabled (jobs : List ScheduledJob) (sts : List FireState) (job : ScheduledJob) (st : FireState) : Prop :=
  (job, st) ∈ jobs.zip sts ∧ job.enabled = true

theorem enabled_cons {first : ScheduledJob} {stFirst : FireState} :
    Enabled (first :: jobs) (stFirst :: sts) job st ↔
      (job = first ∧ st = stFirst ∧ first.enabled = true) ∨ Enabled jobs sts job st := by
  unfold Enabled
  rw [List.zip_cons_cons, List.mem_cons, Prod.mk.injEq]
  constructor
  · rintro ⟨⟨rfl, rfl⟩ | hmem, hen⟩
    · exact .inl ⟨rfl, rfl, hen⟩
    · exact .inr ⟨hmem, hen⟩
  · rintro (⟨rfl, rfl, hen⟩ | ⟨hmem, hen⟩)
    · exact ⟨.inl ⟨rfl, rfl⟩, hen⟩
    · exact ⟨.inr hmem, hen⟩

theorem dueLoop_ne_nil_iff (hlen : sts.length = jobs.length) :
    (dueLoop nowMs jobs sts).1 ≠ [] ↔ ∃ job st, Enabled jobs sts job st ∧ fires job.trigger st nowMs = true := by
  induction jobs generalizing sts with
  | nil => simp [dueLoop, Enabled]
  | cons first jobs ih =>
    cases sts with
    | nil => cases hlen
    | cons stFirst sts =>
      have ih := ih (Nat.succ.inj hlen)
      simp only [enabled_cons]
      unfold dueLoop
      by_cases hdue : first.due stFirst nowMs = true
      · obtain ⟨hen, hfires⟩ := Bool.and_eq_true_iff.mp hdue
        simp only [hdue, if_true]
        exact iff_of_true (List.cons_ne_nil _ _) ⟨first, stFirst, .inl ⟨rfl, rfl, hen⟩, hfires⟩
      · simp only [hdue, Bool.false_eq_true, if_false]
        rw [ih]
        constructor
        · rintro ⟨job, st, henabled, hfires⟩
          exact ⟨job, st, .inr henabled, hfires⟩
        · rintro ⟨job, st, ⟨rfl, rfl, hen⟩ | henabled, hfires⟩
          · exact absurd (Bool.and_eq_true_iff.mpr ⟨hen, hfires⟩) hdue
          · exact ⟨job, st, henabled, hfires⟩

/-- **The least wait**: what the loop answers is the wait of an enabled job, or of those before it, and no enabled job
has a shorter one.  By induction on the jobs still to be looked at. -/
theorem nextLoop_spec (hwaits : ∀ job st, Enabled jobs sts job st →
      Waits job.trigger st nowMs ((jobWait job.trigger st nowMs).getD 0)) (best : Option ℕ) :
    (nextLoop nowMs jobs sts best = none ↔ best = none ∧ ∀ job st, ¬ Enabled jobs sts job st) ∧
      ∀ w, nextLoop nowMs jobs sts best = some w →
        (best = some w ∨ ∃ job st, Enabled jobs sts job st ∧ Waits job.trigger st nowMs w) ∧
        (∀ b ∈ best, w ≤ b) ∧
        ∀ job st, Enabled jobs sts job st → ∀ d < w, nowMs + d < timeBound → fires job.trigger st (nowMs + d) = false := by
  induction jobs generalizing sts best with
  | nil =>
    unfold nextLoop
    refine ⟨⟨fun h => ⟨h, fun job st h => by simp [Enabled] at h⟩, fun h => h.1⟩, fun w hw => ⟨.inl hw, ?_, ?_⟩⟩
    · intro b hb
      rw [hw] at hb
      exact le_of_eq (Option.some.inj hb)
    · exact fun job st h => by simp [Enabled] at h
  | cons first jobs ih =>
    cases sts with
    | nil =>
      unfold nextLoop
      refine ⟨⟨fun h => ⟨h, fun job st h => by simp [Enabled] at h⟩, fun h => h.1⟩, fun w hw => ⟨.inl hw, ?_, ?_⟩⟩
      · intro b hb
        rw [hw] at hb
        exact le_of_eq (Option.some.inj hb)
      · exact fun job st h => by simp [Enabled] at h
    | cons stFirst sts =>
      have ih := ih fun job st h => hwaits job st (enabled_cons.mpr (.inr h))
      unfold nextLoop
      cases hen : first.enabled with
      | false =>
        have hsame : ∀ job st, Enabled (first :: jobs) (stFirst :: sts) job st ↔ Enabled jobs sts job st := by
          intro job st
          rw [enabled_cons, hen]
          simp
        simp only [hsame]
        exact ih best
      | true =>
        have hfirst := hwaits first stFirst (enabled_cons.mpr (.inl ⟨rfl, rfl, hen⟩))
        cases hwait : jobWait first.trigger stFirst nowMs with
        | none =>
          rw [hwait] at hfirst
          refine ⟨⟨fun h => by simp at h, fun h => ?_⟩, fun w hw => ?_⟩
          · exact absurd (enabled_cons.mpr (.inl ⟨rfl, rfl, hen⟩)) (h.2 first stFirst)
          · obtain rfl : 0 = w := by simpa using hw
            refine ⟨.inr ⟨first, stFirst, enabled_cons.mpr (.inl ⟨rfl, rfl, hen⟩), hfirst⟩, fun _ _ => Nat.zero_le _, ?_⟩
            exact fun _ _ _ d hd => absurd hd (Nat.not_lt_zero d)
        | some wait =>
          rw [hwait] at hfirst
          obtain ⟨hnone, hsome⟩ := ih (some (best.elim wait fun current => min current wait))
          refine ⟨⟨fun h => by simp [hnone] at h, fun h => ?_⟩, fun w hw => ?_⟩
          · exact absurd (enabled_cons.mpr (.inl ⟨rfl, rfl, hen⟩)) (h.2 first stFirst)
          · obtain ⟨hfrom, hle, hquiet⟩ := hsome w hw
            have hmin : w ≤ best.elim wait fun current => min current wait := hle _ rfl
            have hle_wait : w ≤ wait := by
              cases best with
              | none => exact hmin
              | some b => exact hmin.trans (min_le_right b wait)
            refine ⟨?_, ?_, ?_⟩
            · rcases hfrom with hbest | ⟨job, st, henabled, hw⟩
              · have hbest := Option.some.inj hbest
                cases best with
                | none => exact .inr ⟨first, stFirst, enabled_cons.mpr (.inl ⟨rfl, rfl, hen⟩), hbest ▸ hfirst⟩
                | some b =>
                  rcases min_choice b wait with hb | hb
                  · exact .inl (congrArg some (hb.symm.trans hbest))
                  · exact .inr ⟨first, stFirst, enabled_cons.mpr (.inl ⟨rfl, rfl, hen⟩), (hb.symm.trans hbest) ▸ hfirst⟩
              · exact .inr ⟨job, st, enabled_cons.mpr (.inr henabled), hw⟩
            · intro b hb
              obtain rfl := Option.mem_def.mp hb
              exact hmin.trans (min_le_left b wait)
            · intro job st henabled d hd hbound
              rcases enabled_cons.mp henabled with ⟨rfl, rfl, -⟩ | henabled
              · exact hfirst.quiet d (lt_of_lt_of_le hd hle_wait) hbound
              · exact hquiet job st henabled d hd hbound

/-! ## Runs -/

theorem mem_dueLoop_state {t : ℕ} {st' : FireState} (h : st' ∈ (dueLoop t jobs sts).2) :
    ∃ st ∈ sts, st' = st ∨ ∃ trigger, st' = st.record trigger t := by
  induction jobs generalizing sts with
  | nil => simp [dueLoop] at h
  | cons first jobs ih =>
    cases sts with
    | nil => simp [dueLoop] at h
    | cons stFirst sts =>
      unfold dueLoop at h
      have hrest : st' ∈ (dueLoop t jobs sts).2 → ∃ st ∈ stFirst :: sts, st' = st ∨ ∃ trigger, st' = st.record trigger t := by
        intro hmem
        obtain ⟨st, hst, hcase⟩ := ih hmem
        exact ⟨st, List.mem_cons_of_mem _ hst, hcase⟩
      by_cases hdue : first.due stFirst t = true
      · simp only [hdue, if_true] at h
        rcases List.mem_cons.mp h with rfl | hmem
        · exact ⟨stFirst, List.mem_cons_self, .inr ⟨first.trigger, rfl⟩⟩
        · exact hrest hmem
      · simp only [hdue, Bool.false_eq_true, if_false] at h
        rcases List.mem_cons.mp h with rfl | hmem
        · exact ⟨st', List.mem_cons_self, .inl rfl⟩
        · exact hrest hmem

/-- No job is remembered to have fired after a time. -/
def FiredBy (s : Scheduler) (nowMs : ℕ) : Prop := ∀ st ∈ s.state, ∀ last ∈ st.lastFiredMs, last ≤ nowMs

theorem FiredBy.dueJobs {t : ℕ} (h : FiredBy s nowMs) (ht : t ≤ nowMs) : FiredBy (s.dueJobs t).2 nowMs := by
  intro st' hst' last hlast
  obtain ⟨st, hst, rfl | ⟨trigger, rfl⟩⟩ := mem_dueLoop_state hst'
  · exact h st' hst last hlast
  · cases trigger with
    | every intervalSecs =>
      obtain rfl : t = last := Option.some.inj hlast
      exact ht
    | dailyAt hour minute tz => exact h st hst last hlast

theorem after_firedBy {ticks : List ℕ} (hs : FiredBy s nowMs) (hticks : ∀ t ∈ ticks, t ≤ nowMs) :
    (s.after ticks).jobs = s.jobs ∧ FiredBy (s.after ticks) nowMs := by
  induction ticks generalizing s with
  | nil => exact ⟨rfl, hs⟩
  | cons t ticks ih =>
    obtain ⟨hjobs, hfired⟩ := ih (hs.dueJobs (hticks t List.mem_cons_self)) fun t' ht' =>
      hticks t' (List.mem_cons_of_mem _ ht')
    exact ⟨hjobs, hfired⟩

theorem jobWait_waits (hv : job.validateTrigger = .ok ()) (hlast : ∀ last ∈ st.lastFiredMs, last ≤ nowMs)
    (hnow : nowMs < timeBound) : Waits job.trigger st nowMs ((jobWait job.trigger st nowMs).getD 0) := by
  cases htrigger : job.trigger with
  | every intervalSecs =>
    obtain ⟨w, hw, hwaits⟩ := waits_every intervalSecs hlast
    rw [hw]
    exact hwaits
  | dailyAt hour minute tz => exact waits_daily htrigger hv hnow

theorem exists_enabled_iff (s : Scheduler) :
    (∃ job st, Enabled s.jobs s.state job st) ↔ ∃ job ∈ s.jobs, job.enabled = true := by
  constructor
  · rintro ⟨job, st, hmem, hen⟩
    exact ⟨job, (List.of_mem_zip hmem).1, hen⟩
  · rintro ⟨job, hmem, hen⟩
    have hfst : (s.jobs.zip s.state).map Prod.fst = s.jobs := List.map_fst_zip (le_of_eq s.aligned.symm)
    rw [← hfst] at hmem
    obtain ⟨⟨job', st⟩, hpair, rfl⟩ := List.mem_map.mp hmem
    exact ⟨job', st, hpair, hen⟩

/-- **The hint agrees with the due check.**  In every state a scheduler reaches, at every time no tick is after, the hint
is absent iff no job is enabled; where it is `w`, nothing is due before `w` milliseconds are over and something is then. -/
theorem hint_exact (jobs : List ScheduledJob) (s : Scheduler) (h : Scheduler.new jobs = .ok s) (ticks : List ℕ)
    (nowMs : ℕ) (hticks : ∀ t ∈ ticks, t ≤ nowMs) (hnow : nowMs < 2 ^ 62) :
    ((s.after ticks).nextDueInMs nowMs = none ↔ ∀ job ∈ (s.after ticks).jobs, job.enabled = false) ∧
      ∀ w, (s.after ticks).nextDueInMs nowMs = some w →
        (∀ d < w, nowMs + d < 2 ^ 62 → ((s.after ticks).dueJobs (nowMs + d)).1 = []) ∧
          (nowMs + w < 2 ^ 62 → ((s.after ticks).dueJobs (nowMs + w)).1 ≠ []) := by
  obtain ⟨hjobs, hstate, hacc⟩ := new_eq_ok h
  have hfresh : FiredBy s nowMs := by
    intro st hst last hlast
    rw [hstate] at hst
    rw [List.eq_of_mem_replicate hst] at hlast
    exact absurd hlast (by simp [FireState.default])
  obtain ⟨hsame, hfired⟩ := after_firedBy hfresh hticks
  generalize s.after ticks = s' at hsame hfired ⊢
  have hwaits : ∀ job st, Enabled s'.jobs s'.state job st →
      Waits job.trigger st nowMs ((jobWait job.trigger st nowMs).getD 0) := by
    rintro job st ⟨hmem, -⟩
    obtain ⟨hjob, hst⟩ := List.of_mem_zip hmem
    rw [hsame, hjobs] at hjob
    exact jobWait_waits (hacc.triggers job hjob) (hfired st hst) hnow
  obtain ⟨hnone, hsome⟩ := nextLoop_spec hwaits none
  refine ⟨?_, fun w hw => ⟨fun d hd hbound => ?_, fun hbound => ?_⟩⟩
  · show nextLoop nowMs s'.jobs s'.state none = none ↔ _
    have hex := exists_enabled_iff s'
    rw [hnone]
    constructor
    · rintro ⟨-, hno⟩ job hjob
      by_contra hen
      obtain ⟨job', st, henabled⟩ := hex.mpr ⟨job, hjob, by simpa using hen⟩
      exact hno job' st henabled
    · intro hoff
      refine ⟨rfl, fun job st henabled => ?_⟩
      obtain ⟨job', hjob', hen⟩ := hex.mp ⟨job, st, henabled⟩
      rw [hoff job' hjob'] at hen
      exact absurd hen (by decide)
  · by_contra hdue
    obtain ⟨job, st, henabled, hfires⟩ := (dueLoop_ne_nil_iff s'.aligned).mp hdue
    rw [(hsome w hw).2.2 job st henabled d hd hbound] at hfires
    exact absurd hfires (by decide)
  · rcases (hsome w hw).1 with hbest | ⟨job, st, henabled, hwait⟩
    · exact absurd hbest (by simp)
    · exact (dueLoop_ne_nil_iff s'.aligned).mpr ⟨job, st, henabled, hwait.due hbound⟩

/-- The daily job that fired at nine is due again at eight the next day. -/
theorem briefing_hint :
    (((Sample.scheduler.after [Sample.nine 5]).nextDueInMs (Sample.nine 5) = none ↔
        ∀ job ∈ (Sample.scheduler.after [Sample.nine 5]).jobs, job.enabled = false) ∧
      ∀ w, (Sample.scheduler.after [Sample.nine 5]).nextDueInMs (Sample.nine 5) = some w →
        (∀ d < w, Sample.nine 5 + d < 2 ^ 62 →
          ((Sample.scheduler.after [Sample.nine 5]).dueJobs (Sample.nine 5 + d)).1 = []) ∧
          (Sample.nine 5 + w < 2 ^ 62 →
            ((Sample.scheduler.after [Sample.nine 5]).dueJobs (Sample.nine 5 + w)).1 ≠ [])) ∧
      (Sample.scheduler.after [Sample.nine 5]).nextDueInMs (Sample.nine 5) = some (23 * 3600000) :=
  ⟨hint_exact [Sample.briefing] Sample.scheduler rfl [Sample.nine 5] (Sample.nine 5) (by decide) (by decide),
    by decide +kernel⟩

end AnimaCore.Schedule
