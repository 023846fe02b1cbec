import AnimaCore.Base
import AnimaCore.Lib.Blocks

/-!
# AnimaCore.Schedule — the tick-driven scheduler

The crate `anima-schedule`: `Scheduler::new` and `Scheduler::due_jobs`.  A host calls `due_jobs` with the time in
milliseconds since the epoch; the scheduler answers the jobs that are due and remembers, for each job, when it fired
last.  `next_due_in_ms`, which changes nothing, is in `SleepHint`; the loading of job files is not modelled.

A run of the scheduler is a list of ticks; `firings` lists the ticks at which a job was returned, once for each time it
was.  Jobs do not share state (`firings_eq`), so a run is studied one job at a time:

* an `Every` job remembers its last firing (`every_spaced`);
* a `DailyAt` job remembers the last local *day* it fired on, a memory of one value: it fires at the ticks where the
  local day of the ticks that reach its minute changes (`daily_days`).
-/

namespace AnimaCore.Schedule

open Lib

def minuteMs : ℤ := 60000

def dayMs : ℤ := 86400000

def maxTzOffsetMinutes : ℤ := 14 * 60

inductive ScheduleTrigger
  | every (intervalSecs : ℕ)
  | dailyAt (hour minute : ℕ) (tzOffsetMinutes : ℤ)
  deriving DecidableEq, Repr

structure ScheduledJob where
  name : String
  agentName : String
  prompt : String
  trigger : ScheduleTrigger
  enabled : Bool
  deriving DecidableEq

structure FireState where
  lastFiredMs : Option ℕ
  lastFiredDay : Option ℤ
  deriving DecidableEq

def FireState.default : FireState := { lastFiredMs := none, lastFiredDay := none }

/-- `Scheduler`: one fire state for each job. -/
structure Scheduler where
  jobs : List ScheduledJob
  state : List FireState
  aligned : state.length = jobs.length

/-! ## Acceptance -/

/-- `i32::abs` without overflow checks: the least value is its own absolute value. -/
def absI32 (n : ℤ) : ℤ := if n = -2 ^ 31 then n else |n|

/-- The trigger part of the checks of `Scheduler::new`. -/
def ScheduledJob.validateTrigger (job : ScheduledJob) : Except String Unit :=
  match job.trigger with
  | .every intervalSecs =>
    ensure (intervalSecs ≠ 0) ("job '" ++ job.name ++ "': interval_secs must be greater than 0")
  | .dailyAt hour minute tzOffsetMinutes => do
    ensure (hour < 24) ("job '" ++ job.name ++ "': hour must be < 24")
    ensure (minute < 60) ("job '" ++ job.name ++ "': minute must be < 60")
    ensure (absI32 tzOffsetMinutes ≤ maxTzOffsetMinutes)
      ("job '" ++ job.name ++ "': tz_offset_minutes must be within +/-840")

/-- One turn of the loop of `Scheduler::new`; `seen` are the names so far. -/
def ScheduledJob.validate (seen : List String) (job : ScheduledJob) : Except String (List String) := do
  ensure (trimmedEmpty job.name = false) "job name must not be empty"
  ensure (trimmedEmpty job.agentName = false) ("job '" ++ job.name ++ "': agent_name must not be empty")
  ensure (trimmedEmpty job.prompt = false) ("job '" ++ job.name ++ "': prompt must not be empty")
  ensure (job.name ∉ seen) ("duplicate job name '" ++ job.name ++ "'")
  job.validateTrigger
  return job.name :: seen

theorem length_default_state (jobs : List ScheduledJob) :
    (List.replicate jobs.length FireState.default).length = jobs.length := by simp

def Scheduler.new (jobs : List ScheduledJob) : Except String Scheduler := do
  let _ ← jobs.foldlM ScheduledJob.validate []
  return { jobs, state := List.replicate jobs.length FireState.default, aligned := length_default_state jobs }

/-! ## Local time -/

/-- `now_ms as i64`. -/
def asI64 (nowMs : ℕ) : ℤ := (BitVec.ofNat 64 nowMs).toInt

/-- `local_ms`; `localMs_fits` shows that the sum stays in an `i64`. -/
def localMs (nowMs : ℕ) (tzOffsetMinutes : ℤ) : ℤ := asI64 nowMs + tzOffsetMinutes * minuteMs

def localMinutesOfDay (localMs : ℤ) : ℤ := localMs % dayMs / minuteMs

/-- The local calendar day of a tick: `div_euclid` by a positive number. -/
def localDay (tzOffsetMinutes : ℤ) (nowMs : ℕ) : ℤ := localMs nowMs tzOffsetMinutes / dayMs

/-- The tick is at or after the target minute of its local day. -/
def reached (hour minute : ℕ) (tzOffsetMinutes : ℤ) (nowMs : ℕ) : Bool :=
  ((hour * 60 + minute : ℕ) : ℤ) ≤ localMinutesOfDay (localMs nowMs tzOffsetMinutes)

/-- `interval_secs.saturating_mul(1000)`. -/
def intervalMs (intervalSecs : ℕ) : ℕ := min (intervalSecs * 1000) (2 ^ 64 - 1)

/-! ## Ticks -/

/-- Whether an enabled job fires; a subtraction of `ℕ` is the `saturating_sub` of the source. -/
def fires (trigger : ScheduleTrigger) (st : FireState) (nowMs : ℕ) : Bool :=
  match trigger with
  | .every intervalSecs =>
    match st.lastFiredMs with
    | none => true
    | some last => intervalMs intervalSecs ≤ nowMs - last
  | .dailyAt hour minute tz => reached hour minute tz nowMs && decide (st.lastFiredDay ≠ some (localDay tz nowMs))

def FireState.record (st : FireState) (trigger : ScheduleTrigger) (nowMs : ℕ) : FireState :=
  match trigger with
  | .every _ => { st with lastFiredMs := some nowMs }
  | .dailyAt _ _ tz => { st with lastFiredDay := some (localDay tz nowMs) }

/-- Whether the loop of `due_jobs` pushes the job. -/
def ScheduledJob.due (job : ScheduledJob) (st : FireState) (nowMs : ℕ) : Bool :=
  job.enabled && fires job.trigger st nowMs

/-- The loop of `due_jobs`: the due jobs and the states after it. -/
def dueLoop (nowMs : ℕ) : List ScheduledJob → List FireState → List ScheduledJob × List FireState
  | job :: jobs, st :: sts =>
    let rest := dueLoop nowMs jobs sts
    if job.due st nowMs then (job :: rest.1, st.record job.trigger nowMs :: rest.2) else (rest.1, st :: rest.2)
  | _, _ => ([], [])

theorem dueLoop_length {nowMs : ℕ} {jobs : List ScheduledJob} {sts : List FireState} (h : sts.length = jobs.length) :
    (dueLoop nowMs jobs sts).2.length = jobs.length := by
  induction jobs generalizing sts with
  | nil => rfl
  | cons job jobs ih =>
    cases sts with
    | nil => cases h
    | cons st sts =>
      have hrest := ih (Nat.succ.inj h)
      unfold dueLoop
      split_ifs <;> simp [hrest]

def Scheduler.dueJobs (s : Scheduler) (nowMs : ℕ) : List ScheduledJob × Scheduler :=
  let out := dueLoop nowMs s.jobs s.state
  (out.1, { jobs := s.jobs, state := out.2, aligned := dueLoop_length s.aligned })

/-- What a sequence of `due_jobs` calls returned, each answer with its tick. -/
def Scheduler.run (s : Scheduler) : List ℕ → List (ℕ × List ScheduledJob)
  | [] => []
  | t :: ticks => (t, (s.dueJobs t).1) :: (s.dueJobs t).2.run ticks

/-- The ticks at which `job` was returned, each as often as it was. -/
def firings (job : ScheduledJob) (log : List (ℕ × List ScheduledJob)) : List ℕ :=
  log.flatMap fun entry => List.replicate (entry.2.count job) entry.1

/-! ## One job -/

def jobFirings (job : ScheduledJob) : FireState → List ℕ → List ℕ
  | _, [] => []
  | st, t :: ticks =>
    if job.due st t then t :: jobFirings job (st.record job.trigger t) ticks else jobFirings job st ticks

theorem dueLoop_count_of_notMem {nowMs : ℕ} {job : ScheduledJob} {jobs : List ScheduledJob} {sts : List FireState}
    (h : job ∉ jobs) : (dueLoop nowMs jobs sts).1.count job = 0 := by
  induction jobs generalizing sts with
  | nil => rfl
  | cons other jobs ih =>
    have hne : other ≠ job := fun he => h (by simp [he])
    have hrest : job ∉ jobs := fun hm => h (by simp [hm])
    cases sts with
    | nil => rfl
    | cons st sts =>
      unfold dueLoop
      split_ifs
      · rw [List.count_cons_of_ne hne]
        exact ih hrest
      · exact ih hrest

theorem dueLoop_job (nowMs : ℕ) {i : ℕ} {job : ScheduledJob} {jobs : List ScheduledJob} {sts : List FireState}
    {st : FireState} (hnd : jobs.Nodup) (hjob : jobs[i]? = some job) (hst : sts[i]? = some st) :
    (dueLoop nowMs jobs sts).1.count job = (job.due st nowMs).toNat ∧
      (dueLoop nowMs jobs sts).2[i]? =
        some (if job.due st nowMs then st.record job.trigger nowMs else st) := by
  induction jobs generalizing sts i with
  | nil => cases hjob
  | cons first jobs ih =>
    obtain ⟨hfirst, hnd⟩ := List.nodup_cons.mp hnd
    cases sts with
    | nil => cases hst
    | cons stFirst sts =>
      cases i with
      | zero =>
        cases hjob
        cases hst
        have hzero : (dueLoop nowMs jobs sts).1.count job = 0 := dueLoop_count_of_notMem hfirst
        unfold dueLoop
        split_ifs with hd <;> simp [hzero, hd]
      | succ i =>
        rw [List.getElem?_cons_succ] at hjob hst
        obtain ⟨hcount, hstate⟩ := ih hnd hjob hst
        have hne : first ≠ job := fun he => hfirst (he ▸ List.mem_of_getElem? hjob)
        by_cases hd : first.due stFirst nowMs = true
        · simp only [dueLoop, hd, if_true, List.count_cons_of_ne hne, List.getElem?_cons_succ]
          exact ⟨hcount, hstate⟩
        · simp only [dueLoop, hd]
          exact ⟨hcount, hstate⟩

theorem firings_eq {s : Scheduler} {i : ℕ} {job : ScheduledJob} {st : FireState} (hnd : s.jobs.Nodup)
    (hjob : s.jobs[i]? = some job) (hst : s.state[i]? = some st) (ticks : List ℕ) :
    firings job (s.run ticks) = jobFirings job st ticks := by
  induction ticks generalizing s st with
  | nil => rfl
  | cons t ticks ih =>
    obtain ⟨hcount, hstate⟩ := dueLoop_job t hnd hjob hst
    have hrest := ih (s := (s.dueJobs t).2) hnd hjob hstate
    have hhead : firings job (s.run (t :: ticks)) =
        List.replicate (job.due st t).toNat t ++ firings job ((s.dueJobs t).2.run ticks) := by
      unfold firings
      rw [Scheduler.run, List.flatMap_cons]
      unfold Scheduler.dueJobs
      rw [hcount]
    rw [hhead, hrest, jobFirings]
    cases hd : job.due st t <;> simp

/-! ## Accepted schedulers -/

/-- What the loop of `Scheduler::new` has checked of the jobs it passed. -/
structure Accepted (jobs : List ScheduledJob) : Prop where
  names : (jobs.map (·.name)).Nodup
  triggers : ∀ job ∈ jobs, job.validateTrigger = .ok ()

theorem validate_accepts {jobs : List ScheduledJob} {seen : List String}
    (h : jobs.foldlM ScheduledJob.validate [] = .ok seen) : Accepted jobs := by
  have hloop : (∀ n, n ∈ seen ↔ n ∈ jobs.map (·.name)) ∧ Accepted jobs := by
    refine foldlM_induction (P := fun pre seen => (∀ n, n ∈ seen ↔ n ∈ pre.map (·.name)) ∧ Accepted pre) h
      ⟨by simp, ⟨by simp, by simp⟩⟩ ?_
    rintro pre job post seen seen' _ ⟨hseen, hpre⟩ hv
    simp only [ScheduledJob.validate, bind_eq_ok, ensure_eq_ok] at hv
    obtain ⟨_, _, _, _, _, _, _, hfresh, _, htrigger, hout⟩ := hv
    cases hout
    refine ⟨fun n => by simp [hseen n, or_comm], ?_, ?_⟩
    · rw [List.map_append, List.nodup_append]
      refine ⟨hpre.names, by simp, ?_⟩
      rintro n hn m hm rfl
      simp only [List.map_cons, List.map_nil, List.mem_singleton] at hm
      exact hfresh ((hseen _).mpr (hm ▸ hn))
    · intro job' hm
      rcases List.mem_append.mp hm with hm | hm
      · exact hpre.triggers job' hm
      · rw [List.mem_singleton.mp hm]
        exact htrigger
  exact hloop.2

theorem new_eq_ok {jobs : List ScheduledJob} {s : Scheduler} (h : Scheduler.new jobs = .ok s) :
    s.jobs = jobs ∧ s.state = List.replicate jobs.length FireState.default ∧ Accepted jobs := by
  simp only [Scheduler.new, bind_eq_ok] at h
  obtain ⟨seen, hloop, hs⟩ := h
  cases hs
  exact ⟨rfl, rfl, validate_accepts hloop⟩

theorem localMs_fits {job : ScheduledJob} {hour minute nowMs : ℕ} {tz : ℤ} (hv : job.validateTrigger = .ok ())
    (htrigger : job.trigger = .dailyAt hour minute tz) (ht : nowMs < 2 ^ 62) :
    localMs nowMs tz = nowMs + tz * 60000 ∧ -2 ^ 63 ≤ localMs nowMs tz ∧ localMs nowMs tz < 2 ^ 63 := by
  simp only [ScheduledJob.validateTrigger, htrigger, bind_eq_ok, ensure_eq_ok] at hv
  obtain ⟨_, _, _, _, habs⟩ := hv
  have htz : -2 ^ 31 ≤ tz ∧ tz ≤ 840 := by
    unfold absI32 maxTzOffsetMinutes at habs
    split_ifs at habs with hmin
    · omega
    · have := abs_le.mp habs
      omega
  have hcast : asI64 nowMs = nowMs := by
    unfold asI64
    have hnat : (BitVec.ofNat 64 nowMs).toNat = nowMs := by
      rw [BitVec.toNat_ofNat]
      exact Nat.mod_eq_of_lt (by omega)
    rw [BitVec.toInt_eq_toNat_of_lt (by omega), hnat]
  unfold localMs minuteMs
  rw [hcast]
  omega

theorem firings_of_new {jobs : List ScheduledJob} {s : Scheduler} {job : ScheduledJob} (h : Scheduler.new jobs = .ok s)
    (hm : job ∈ s.jobs) (ticks : List ℕ) : firings job (s.run ticks) = jobFirings job FireState.default ticks := by
  obtain ⟨hjobs, hstate, hacc⟩ := new_eq_ok h
  obtain ⟨i, hi⟩ := List.mem_iff_getElem?.mp hm
  have hnd : s.jobs.Nodup := by
    rw [hjobs]
    exact List.Nodup.of_map _ hacc.names
  have hst : s.state[i]? = some FireState.default := by
    obtain ⟨hlt, _⟩ := List.getElem?_eq_some_iff.mp hi
    rw [hjobs] at hlt
    rw [hstate, List.getElem?_replicate, if_pos hlt]
  exact firings_eq hnd hi hst ticks

/-! ## `Every` jobs -/

/-- Two firings are at least the interval apart. -/
def Apart (intervalSecs t₁ t₂ : ℕ) : Prop := t₁ + intervalSecs * 1000 ≤ t₂

theorem every_spaced {job : ScheduledJob} {intervalSecs : ℕ} (htrigger : job.trigger = .every intervalSecs)
    (hpos : intervalSecs ≠ 0) (ticks : List ℕ) (ht : ∀ t ∈ ticks, t < 2 ^ 62) (st : FireState) :
    (st.lastFiredMs.toList ++ jobFirings job st ticks).IsChain (Apart intervalSecs) := by
  induction ticks generalizing st with
  | nil => cases hl : st.lastFiredMs <;> simp [jobFirings]
  | cons t ticks ih =>
    have hrest : ∀ t' ∈ ticks, t' < 2 ^ 62 := fun t' hm => ht t' (by simp [hm])
    unfold jobFirings
    by_cases hd : job.due st t = true
    · rw [if_pos hd]
      have hnext := ih hrest (st.record job.trigger t)
      rw [htrigger] at hnext ⊢
      simp only [FireState.record, Option.toList_some, List.singleton_append] at hnext ⊢
      cases hl : st.lastFiredMs with
      | none => simpa using hnext
      | some last =>
        have hfires : intervalMs intervalSecs ≤ t - last := by
          simp only [ScheduledJob.due, fires, htrigger, hl, Bool.and_eq_true, decide_eq_true_eq] at hd
          exact hd.2
        -- a saturated interval is longer than any two ticks are apart
        have hlt : t < 2 ^ 62 := ht t (by simp)
        have hapart : Apart intervalSecs last t := by
          unfold intervalMs at hfires
          unfold Apart
          omega
        simpa using ⟨hapart, hnext⟩
    · rw [if_neg hd]
      exact ih hrest st

/-! ## `DailyAt` jobs -/

/-- The local days of the ticks that reach the target minute, in order. -/
def reachedDays (hour minute : ℕ) (tz : ℤ) (ticks : List ℕ) : List ℤ :=
  (ticks.filter (reached hour minute tz)).map (localDay tz)

theorem daily_days {job : ScheduledJob} {hour minute : ℕ} {tz : ℤ} (htrigger : job.trigger = .dailyAt hour minute tz)
    (hen : job.enabled = true) (ticks : List ℕ) (st : FireState) :
    st.lastFiredDay.toList ++ (jobFirings job st ticks).map (localDay tz) =
      (st.lastFiredDay.toList ++ reachedDays hour minute tz ticks).destutter (· ≠ ·) := by
  induction ticks generalizing st with
  | nil => cases hl : st.lastFiredDay <;> simp [jobFirings, reachedDays]
  | cons t ticks ih =>
    have hdue : job.due st t = (reached hour minute tz t && decide (st.lastFiredDay ≠ some (localDay tz t))) := by
      simp [ScheduledJob.due, fires, htrigger, hen]
    unfold jobFirings
    by_cases hr : reached hour minute tz t = true
    · have hdays : reachedDays hour minute tz (t :: ticks) = localDay tz t :: reachedDays hour minute tz ticks := by
        simp [reachedDays, hr]
      have hnext := ih (st.record job.trigger t)
      rw [htrigger] at hnext
      simp only [FireState.record, Option.toList_some, List.singleton_append] at hnext
      rw [hdays, hdue, hr, htrigger]
      cases hl : st.lastFiredDay with
      | none => simpa [FireState.record, hl] using hnext
      | some d =>
        by_cases hday : d = localDay tz t
        · have hsame := ih st
          rw [hl] at hsame
          simp only [Option.toList_some, List.singleton_append] at hsame
          subst hday
          rw [List.destutter_cons'] at hsame
          simpa [List.destutter_cons_cons] using hsame
        · rw [List.destutter_cons'] at hnext
          simp [hday, List.destutter_cons_cons, FireState.record, hnext]
    · have hdays : reachedDays hour minute tz (t :: ticks) = reachedDays hour minute tz ticks := by
        simp [reachedDays, hr]
      rw [hdays, hdue]
      simpa [hr] using ih st

theorem disabled_silent {job : ScheduledJob} (hen : job.enabled = false) (ticks : List ℕ) (st : FireState) :
    jobFirings job st ticks = [] := by
  induction ticks generalizing st with
  | nil => rfl
  | cons t ticks ih => simp [jobFirings, ScheduledJob.due, hen, ih]

/-- After a tick on a later or earlier local day, the clock comes back to the first day; all three ticks reach the
target minute. -/
def DayReturns (hour minute : ℕ) (tz : ℤ) (ticks : List ℕ) : Prop :=
  ∃ a b c, [a, b, c].Sublist ticks ∧ reached hour minute tz a = true ∧ reached hour minute tz b = true ∧
    reached hour minute tz c = true ∧ localDay tz c = localDay tz a ∧ localDay tz b ≠ localDay tz a

theorem dayReturns_iff {hour minute : ℕ} {tz : ℤ} {ticks : List ℕ} :
    DayReturns hour minute tz ticks ↔ ∃ a b, b ≠ a ∧ [a, b, a].Sublist (reachedDays hour minute tz ticks) := by
  constructor
  · rintro ⟨a, b, c, hs, ha, hb, hc, hca, hba⟩
    refine ⟨localDay tz a, localDay tz b, hba, ?_⟩
    have hmap := (hs.filter (reached hour minute tz)).map (localDay tz)
    simpa [reachedDays, ha, hb, hc, hca] using hmap
  · rintro ⟨a, b, hba, hs⟩
    obtain ⟨l, hl, hmap⟩ := List.sublist_map_iff.mp hs
    have hlen : l.length = 3 := by simpa using (congrArg List.length hmap).symm
    obtain ⟨x, y, z, rfl⟩ := List.length_eq_three.mp hlen
    simp only [List.map_cons, List.map_nil, List.cons.injEq, and_true] at hmap
    obtain ⟨hx, hy, hz⟩ := hmap
    have hreached : ∀ t ∈ [x, y, z], reached hour minute tz t = true := fun t ht =>
      (List.mem_filter.mp (hl.subset ht)).2
    refine ⟨x, y, z, hl.trans List.filter_sublist, hreached x (by simp), hreached y (by simp), hreached z (by simp),
      ?_, ?_⟩
    · rw [← hx, ← hz]
    · rw [← hx, ← hy]
      exact hba

/-! ## Runs -/

/-- A `DailyAt` job is returned at most once for each local day. -/
def OncePerDay (s : Scheduler) (ticks : List ℕ) : Prop :=
  ∀ job ∈ s.jobs, ∀ hour minute tz, job.trigger = .dailyAt hour minute tz →
    ((firings job (s.run ticks)).map (localDay tz)).Nodup

/-- Consecutive firings of an `Every` job are its interval apart. -/
def Spaced (s : Scheduler) (ticks : List ℕ) : Prop :=
  ∀ job ∈ s.jobs, ∀ intervalSecs, job.trigger = .every intervalSecs →
    (firings job (s.run ticks)).IsChain (Apart intervalSecs)

/-- For ticks that never go back, an enabled `DailyAt` job fires on every day on which a tick reaches its minute. -/
def NoneMissed (s : Scheduler) (ticks : List ℕ) : Prop :=
  ticks.Pairwise (· ≤ ·) → ∀ job ∈ s.jobs, job.enabled = true → ∀ hour minute tz,
    job.trigger = .dailyAt hour minute tz → ∀ t ∈ ticks, reached hour minute tz t = true →
      localDay tz t ∈ (firings job (s.run ticks)).map (localDay tz)

section

variable {jobs : List ScheduledJob} {s : Scheduler}

theorem firings_days (h : Scheduler.new jobs = .ok s) {job : ScheduledJob} (hm : job ∈ s.jobs)
    (hen : job.enabled = true) {hour minute : ℕ} {tz : ℤ} (htrigger : job.trigger = .dailyAt hour minute tz)
    (ticks : List ℕ) :
    (firings job (s.run ticks)).map (localDay tz) = (reachedDays hour minute tz ticks).destutter (· ≠ ·) := by
  rw [firings_of_new h hm]
  simpa [FireState.default] using daily_days htrigger hen ticks FireState.default

theorem spaced (h : Scheduler.new jobs = .ok s) {ticks : List ℕ} (ht : ∀ t ∈ ticks, t < 2 ^ 62) :
    Spaced s ticks := by
  intro job hm intervalSecs htrigger
  obtain ⟨hjobs, _, hacc⟩ := new_eq_ok h
  have hpos : intervalSecs ≠ 0 := by
    have hv := hacc.triggers job (hjobs ▸ hm)
    simpa [ScheduledJob.validateTrigger, htrigger] using hv
  rw [firings_of_new h hm]
  simpa [FireState.default] using every_spaced htrigger hpos ticks ht FireState.default

theorem none_missed (h : Scheduler.new jobs = .ok s) (ticks : List ℕ) : NoneMissed s ticks := by
  intro _ job hm hen hour minute tz htrigger t ht hr
  rw [firings_days h hm hen htrigger]
  apply mem_destutter_ne
  exact List.mem_map_of_mem (List.mem_filter.mpr ⟨ht, hr⟩)

theorem oncePerDay_iff (h : Scheduler.new jobs = .ok s) (ticks : List ℕ) :
    OncePerDay s ticks ↔ ∀ job ∈ s.jobs, job.enabled = true → ∀ hour minute tz,
      job.trigger = .dailyAt hour minute tz → ¬DayReturns hour minute tz ticks := by
  constructor
  · intro honce job hm hen hour minute tz htrigger hret
    have hnd := honce job hm hour minute tz htrigger
    rw [firings_days h hm hen htrigger, destutter_ne_nodup_iff] at hnd
    obtain ⟨a, b, hba, hs⟩ := dayReturns_iff.mp hret
    exact hnd a b hba hs
  · intro hcond job hm hour minute tz htrigger
    cases hen : job.enabled with
    | false =>
      rw [firings_of_new h hm, disabled_silent hen]
      simp
    | true =>
      rw [firings_days h hm hen htrigger, destutter_ne_nodup_iff]
      intro a b hba hs
      exact hcond job hm hen hour minute tz htrigger (dayReturns_iff.mpr ⟨a, b, hba, hs⟩)

/-- **Firing law.**  For an accepted scheduler and any ticks, intervals are kept and no day is missed; a day is never
fired twice iff the clock never comes back, for an enabled `DailyAt` job, to a local day it has left. -/
theorem schedule_law_iff (h : Scheduler.new jobs = .ok s) (ticks : List ℕ) (ht : ∀ t ∈ ticks, t < 2 ^ 62) :
    (OncePerDay s ticks ∧ Spaced s ticks ∧ NoneMissed s ticks) ↔
      ∀ job ∈ s.jobs, job.enabled = true → ∀ hour minute tz,
        job.trigger = .dailyAt hour minute tz → ¬DayReturns hour minute tz ticks := by
  rw [← oncePerDay_iff h ticks]
  exact ⟨fun hall => hall.1, fun honce => ⟨honce, spaced h ht, none_missed h ticks⟩⟩

end

namespace Sample

def briefing : ScheduledJob :=
  { name := "briefing", agentName := "assistant", prompt := "summarise the day", trigger := .dailyAt 8 0 0
    enabled := true }

def scheduler : Scheduler :=
  { jobs := [briefing], state := [FireState.default], aligned := length_default_state [briefing] }

def nine (day : ℕ) : ℕ := day * 86400000 + 9 * 3600000

end Sample

/-- The clock runs from day 5 to day 6 and is then corrected back: the job fires twice for day 5. -/
theorem corrected_clock_fires_twice :
    Scheduler.new [Sample.briefing] = .ok Sample.scheduler ∧
      (∀ t ∈ [Sample.nine 5, Sample.nine 6, Sample.nine 5], t < 2 ^ 62) ∧
      ¬OncePerDay Sample.scheduler [Sample.nine 5, Sample.nine 6, Sample.nine 5] := by
  refine ⟨rfl, by decide, ?_⟩
  intro honce
  have hnd := honce Sample.briefing (by decide) 8 0 0 rfl
  revert hnd
  decide +kernel

/-- A forward clock keeps the law. -/
theorem sample_forward_clock :
    OncePerDay Sample.scheduler [Sample.nine 5, Sample.nine 5, Sample.nine 6] ∧
      Spaced Sample.scheduler [Sample.nine 5, Sample.nine 5, Sample.nine 6] ∧
      NoneMissed Sample.scheduler [Sample.nine 5, Sample.nine 5, Sample.nine 6] := by
  have hnew : Scheduler.new [Sample.briefing] = .ok Sample.scheduler := rfl
  refine (schedule_law_iff hnew _ (by decide)).mpr ?_
  intro job hm _ hour minute tz htrigger hret
  obtain rfl := List.mem_singleton.mp hm
  cases htrigger
  obtain ⟨a, b, hba, hs⟩ := dayReturns_iff.mp hret
  have hdays : reachedDays 8 0 0 [Sample.nine 5, Sample.nine 5, Sample.nine 6] = [5, 5, 6] := by decide +kernel
  rw [hdays] at hs
  have hnd : ([5, 5, 6] : List ℤ).destutter (· ≠ ·) |>.Nodup := by decide
  exact destutter_ne_nodup_iff.mp hnd a b hba hs

end AnimaCore.Schedule
