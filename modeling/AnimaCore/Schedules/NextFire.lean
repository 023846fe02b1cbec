import AnimaCore.Lib.Earliest
import AnimaCore.Schedules.Fields

/-!
# AnimaCore.Schedules.NextFire — the next fire is the first that matches

* `Expression`: the five fields of an expression, and the wall times that it `Matches`.
-/

namespace AnimaCore.Schedules

open Lib
open Texts (Text trim)

variable {cal : Calendar} {zone : Zone} {c : CronSchedule} {date w a b : ℤ} {minute : ℕ}

/-! ## Wall times -/

theorem dateOf_at (h : minute < 1440) : dateOf (atMinute date minute) = date := by
  unfold dateOf atMinute dayMs minuteMs
  omega

theorem minuteOfDay_at (h : minute < 1440) : minuteOfDay (atMinute date minute) = minute := by
  unfold minuteOfDay atMinute dayMs minuteMs
  omega

theorem minuteOfDay_lt : minuteOfDay w < 1440 := by
  unfold minuteOfDay dayMs minuteMs
  omega

theorem at_emod : atMinute date minute % minuteMs = 0 := by
  unfold atMinute dayMs minuteMs
  omega

theorem at_minuteOfDay (h : w % minuteMs = 0) : atMinute (dateOf w) (minuteOfDay w) = w := by
  unfold minuteMs at h
  unfold minuteOfDay dateOf atMinute dayMs minuteMs
  omega

theorem dateOf_mono (h : a ≤ b) : dateOf a ≤ dateOf b := by
  unfold dateOf dayMs minuteMs
  omega

theorem le_iff_date_minute (ha : a % minuteMs = 0) (hb : b % minuteMs = 0) :
    a ≤ b ↔ dateOf a ≤ dateOf b ∧ (dateOf b = dateOf a → minuteOfDay a ≤ minuteOfDay b) := by
  unfold minuteMs at ha hb
  unfold dateOf minuteOfDay dayMs minuteMs
  omega

theorem next_minute_le_iff (hb : b % minuteMs = 0) : atMinute (dateOf a) (minuteOfDay a) + minuteMs ≤ b ↔ a < b := by
  unfold minuteMs at hb
  unfold minuteOfDay dateOf atMinute dayMs minuteMs
  omega

theorem next_minute_emod : (atMinute (dateOf a) (minuteOfDay a) + minuteMs) % minuteMs = 0 := by
  unfold minuteOfDay dateOf atMinute dayMs minuteMs
  omega

theorem lt_next_minute : a < atMinute (dateOf a) (minuteOfDay a) + minuteMs := by
  unfold minuteOfDay dateOf atMinute dayMs minuteMs
  omega

theorem has_iff_date : cal.Has w ↔ cal.firstDay ≤ dateOf w ∧ dateOf w ≤ cal.lastDay := by
  unfold Calendar.Has dateOf dayMs minuteMs
  omega

theorem weekday_lt : weekday date < 7 := by
  unfold weekday
  omega

/-! ## Expressions -/

/-- `value` is one of the values that the items of a field denote. -/
def Means (f : Field) (text : Text) (value : ℕ) : Prop := ∃ item ∈ text.splitOn ',', Denotes f item value

/-- A day of the week, with a seven for Sunday too. -/
def MeansDay (text : Text) (day : ℕ) : Prop :=
  day < 7 ∧ (Means dayOfWeekField text day ∨ (day = 0 ∧ Means dayOfWeekField text 7))

structure Expression where
  minute : Text
  hour : Text
  dayOfMonth : Text
  month : Text
  dayOfWeek : Text

/-- The fields of an accepted text, after its macro if it is one. -/
def Expression.IsOf (e : Expression) (expression : String) : Prop :=
  ∃ expanded, expand (trim expression.toList) = .ok expanded ∧
    splitWhitespace expanded = [e.minute, e.hour, e.dayOfMonth, e.month, e.dayOfWeek]

def Restricted (text : Text) : Prop := text.head? ≠ some '*'

/-- The day rule: either day where both are restricted, and both days otherwise. -/
def Expression.MatchesDay (e : Expression) (cal : Calendar) (date : ℤ) : Prop :=
  Means monthField e.month (cal.month date) ∧
    ((Restricted e.dayOfMonth ∧ Restricted e.dayOfWeek) ∧
        (Means dayOfMonthField e.dayOfMonth (cal.day date) ∨ MeansDay e.dayOfWeek (weekday date)) ∨
      ¬(Restricted e.dayOfMonth ∧ Restricted e.dayOfWeek) ∧
        Means dayOfMonthField e.dayOfMonth (cal.day date) ∧ MeansDay e.dayOfWeek (weekday date))

def Expression.Matches (e : Expression) (cal : Calendar) (wall : ℤ) : Prop :=
  Means minuteField e.minute (minuteOf wall) ∧ Means hourField e.hour (hourOf wall) ∧ e.MatchesDay cal (dateOf wall)

structure Expression.Parsed (e : Expression) (c : CronSchedule) : Prop where
  minutes : ∀ v, c.minutes.testBit v = true ↔ Means minuteField e.minute v
  hours : ∀ v, c.hours.testBit v = true ↔ Means hourField e.hour v
  daysOfMonth : ∀ v, c.daysOfMonth.testBit v = true ↔ Means dayOfMonthField e.dayOfMonth v
  months : ∀ v, c.months.testBit v = true ↔ Means monthField e.month v
  daysOfWeek : ∀ v, c.daysOfWeek.testBit v = true ↔ MeansDay e.dayOfWeek v
  domRestricted : c.domRestricted = true ↔ Restricted e.dayOfMonth
  dowRestricted : c.dowRestricted = true ↔ Restricted e.dayOfWeek

theorem Field.Lawful.means_le {f : Field} {text : Text} {v : ℕ} (hf : f.Lawful) (h : Means f text v) : v ≤ f.max := by
  obtain ⟨item, _, first, last, step, hreads, _, hle, _⟩ := h
  exact hle.trans (hf.last_le hreads).1

theorem testBit_foldSunday {bits v : ℕ} (hbits : ∀ v, bits.testBit v = true → v ≤ 7) :
    (foldSunday bits).testBit v = true ↔ v < 7 ∧ (bits.testBit v = true ∨ (v = 0 ∧ bits.testBit 7 = true)) := by
  have hmask : ∀ v < 8, (2 ^ 64 - 1 - 1 <<< 7 : ℕ).testBit v = decide (v < 7) := by decide
  have hseven : bits &&& 1 <<< 7 ≠ 0 ↔ bits.testBit 7 = true := by
    rw [Nat.one_shiftLeft, Nat.and_two_pow]
    cases bits.testBit 7 with
    | false => simp
    | true => simp
  unfold foldSunday
  by_cases hsun : bits.testBit 7 = true
  · rw [if_pos (hseven.mpr hsun), Nat.testBit_and, Nat.testBit_or, hsun]
    by_cases hv : v < 8
    · rw [hmask v hv]
      simp only [Bool.and_eq_true, Bool.or_eq_true, decide_eq_true_eq, Nat.testBit_one_eq_true_iff_self_eq_zero,
        and_true]
      tauto
    · have hnot : bits.testBit v = false := by
        by_contra hset
        have hle := hbits v (by simpa using hset)
        omega
      rw [hnot, Bool.false_or]
      constructor
      · rintro h
        have hzero := Nat.testBit_one_eq_true_iff_self_eq_zero.mp (Bool.and_eq_true_iff.mp h).1
        omega
      · rintro ⟨hlt, _⟩
        omega
  · rw [if_neg (fun h => hsun (hseven.mp h))]
    constructor
    · intro h
      have hle := hbits v h
      have hne : v ≠ 7 := fun heq => hsun (heq ▸ h)
      exact ⟨by omega, .inl h⟩
    · rintro ⟨_, h | ⟨_, h⟩⟩
      · exact h
      · exact absurd h hsun

theorem parsed_of_parseCron {expression : String} (h : parseCron expression = .ok c) :
    ∃ e : Expression, e.IsOf expression ∧ e.Parsed c := by
  unfold parseCron at h
  dsimp only at h
  split_ifs at h with hnil hlong
  obtain ⟨expanded, hexpand, h⟩ := bind_eq_ok.mp h
  split at h
  · next minute hour dayOfMonth month dayOfWeek hwords =>
    obtain ⟨minutes, hminutes, h⟩ := bind_eq_ok.mp h
    obtain ⟨hours, hhours, h⟩ := bind_eq_ok.mp h
    obtain ⟨daysOfMonth, hdom, h⟩ := bind_eq_ok.mp h
    obtain ⟨months, hmonths, h⟩ := bind_eq_ok.mp h
    obtain ⟨daysOfWeek, hdow, h⟩ := bind_eq_ok.mp h
    have hc := Except.ok.inj h
    subst hc
    have hdays := (lawful_dayOfWeek.parse_eq_ok hdow).2
    refine ⟨⟨minute, hour, dayOfMonth, month, dayOfWeek⟩, ⟨expanded, hexpand, hwords⟩, ?_, ?_, ?_, ?_, ?_, ?_, ?_⟩
    · exact (lawful_minute.parse_eq_ok hminutes).2
    · exact (lawful_hour.parse_eq_ok hhours).2
    · exact (lawful_dayOfMonth.parse_eq_ok hdom).2
    · exact (lawful_month.parse_eq_ok hmonths).2
    · intro v
      have hle : ∀ v, daysOfWeek.testBit v = true → v ≤ 7 := fun v hset =>
        lawful_dayOfWeek.means_le ((hdays v).mp hset)
      rw [testBit_foldSunday hle, hdays, hdays]
      rfl
    · exact decide_eq_true_iff
    · exact decide_eq_true_iff
  · cases h

theorem parseCron_ne_shift (expression : String) : parseCron expression ≠ .error .shift := by
  unfold parseCron
  dsimp only
  split_ifs
  · simp
  · simp
  · refine bind_ne_error ?_ fun expanded _ => ?_
    · unfold expand
      split
      · split <;> simp
      · simp
    · split
      · refine bind_ne_error (lawful_minute.parse_ne_shift _) fun _ _ =>
          bind_ne_error (lawful_hour.parse_ne_shift _) fun _ _ =>
          bind_ne_error (lawful_dayOfMonth.parse_ne_shift _) fun _ _ =>
          bind_ne_error (lawful_month.parse_ne_shift _) fun _ _ =>
          bind_ne_error (lawful_dayOfWeek.parse_ne_shift _) fun _ _ => ?_
        simp [pure, Except.pure]
      · simp

/-! ## The search -/

def CronSchedule.DayMatches (c : CronSchedule) (cal : Calendar) (date : ℤ) : Prop :=
  c.months.testBit (cal.month date) = true ∧
    if c.domRestricted = true ∧ c.dowRestricted = true then
      c.daysOfMonth.testBit (cal.day date) = true ∨ c.daysOfWeek.testBit (weekday date) = true
    else c.daysOfMonth.testBit (cal.day date) = true ∧ c.daysOfWeek.testBit (weekday date) = true

def CronSchedule.TimeMatches (c : CronSchedule) (minute : ℕ) : Prop :=
  c.hours.testBit (minute / 60) = true ∧ c.minutes.testBit (minute % 60) = true

structure CronSchedule.Stop (c : CronSchedule) (cal : Calendar) (wall : ℤ) : Prop where
  whole : wall % minuteMs = 0
  day : c.DayMatches cal (dateOf wall)
  time : c.TimeMatches (minuteOfDay wall)

theorem Expression.Parsed.matches_iff {e : Expression} (h : e.Parsed c) :
    e.Matches cal w ↔ c.DayMatches cal (dateOf w) ∧ c.TimeMatches (minuteOfDay w) := by
  unfold Expression.Matches Expression.MatchesDay CronSchedule.DayMatches CronSchedule.TimeMatches hourOf minuteOf
  rw [h.minutes, h.hours, h.daysOfMonth, h.daysOfWeek, h.months]
  have hiff : (c.domRestricted = true ∧ c.dowRestricted = true) ↔ (Restricted e.dayOfMonth ∧ Restricted e.dayOfWeek) :=
    and_congr h.domRestricted h.dowRestricted
  by_cases hboth : c.domRestricted = true ∧ c.dowRestricted = true
  · rw [if_pos hboth]
    have hboth' := hiff.mp hboth
    tauto
  · rw [if_neg hboth]
    have hboth' := fun h => hboth (hiff.mpr h)
    tauto

namespace CronSchedule

variable {after earliest days : ℕ}

theorem dayMatches_eq_ok : ∃ b, c.dayMatches cal date = .ok b ∧ (b = true ↔ c.DayMatches cal date) := by
  have hmonth : cal.month date < 64 := lt_of_le_of_lt (cal.month_le date) (by decide)
  have hday : cal.day date < 64 := lt_of_le_of_lt (cal.day_le date) (by decide)
  have hweekday : weekday date < 64 := weekday_lt.trans (by decide)
  unfold dayMatches DayMatches
  rw [bitSet_eq_ok hmonth, bitSet_eq_ok hday, bitSet_eq_ok hweekday]
  cases hset : c.months.testBit (cal.month date) with
  | false => exact ⟨false, rfl, by simp⟩
  | true =>
    refine ⟨_, rfl, ?_⟩
    cases hdom : c.domRestricted with
    | false => simp
    | true =>
      cases hdow : c.dowRestricted with
      | false => simp
      | true => simp

theorem tryMinute_eq_ok {hour : ℕ} (hminute : minute < 60) :
    ∃ r, c.tryMinute zone after earliest date hour minute = .ok r ∧
      FirstIn (fun w => w = atMinute date (hour * 60 + minute) ∧ c.minutes.testBit minute = true ∧
        earliest ≤ hour * 60 + minute) (fun w => resolveWallTime zone w after) r := by
  unfold tryMinute
  rw [bitSet_eq_ok (hminute.trans (by decide))]
  refine ⟨_, ?_, firstIn_single _⟩
  cases c.minutes.testBit minute with
  | false => rfl
  | true =>
    by_cases hlt : hour * 60 + minute < earliest
    · have hnot : ¬(true = true ∧ earliest ≤ hour * 60 + minute) := fun h => by omega
      rw [if_pos hlt, if_neg hnot]
      rfl
    · rw [if_neg hlt, if_pos ⟨rfl, by omega⟩]
      rfl

theorem day_points :
    (∃ hour ∈ List.range 24, c.hours.testBit hour = true ∧ ∃ minute ∈ List.range 60,
        w = atMinute date (hour * 60 + minute) ∧ c.minutes.testBit minute = true ∧ earliest ≤ hour * 60 + minute) ↔
      w % minuteMs = 0 ∧ dateOf w = date ∧ earliest ≤ minuteOfDay w ∧ c.TimeMatches (minuteOfDay w) := by
  unfold TimeMatches
  constructor
  · rintro ⟨hour, hhour, hhours, minute, hminute, rfl, hminutes, hearliest⟩
    rw [List.mem_range] at hhour hminute
    have hlt : hour * 60 + minute < 1440 := by omega
    have hdiv : (hour * 60 + minute) / 60 = hour := by omega
    have hmod : (hour * 60 + minute) % 60 = minute := by omega
    rw [dateOf_at hlt, minuteOfDay_at hlt, hdiv, hmod]
    exact ⟨at_emod, rfl, hearliest, hhours, hminutes⟩
  · rintro ⟨hwhole, rfl, hearliest, hhours, hminutes⟩
    have hlt := minuteOfDay_lt (w := w)
    have hsplit : minuteOfDay w / 60 * 60 + minuteOfDay w % 60 = minuteOfDay w := by omega
    refine ⟨minuteOfDay w / 60, List.mem_range.mpr (by omega), hhours, minuteOfDay w % 60,
      List.mem_range.mpr (by omega), ?_, hminutes, ?_⟩
    · rw [hsplit, at_minuteOfDay hwhole]
    · rwa [hsplit]

theorem searchDay_eq_ok : ∃ r, c.searchDay zone after earliest date = .ok r ∧
    FirstIn (fun w => w % minuteMs = 0 ∧ dateOf w = date ∧ earliest ≤ minuteOfDay w ∧ c.TimeMatches (minuteOfDay w))
      (fun w => resolveWallTime zone w after) r := by
  have hminutes : ∀ hour, ∃ r,
      ((List.range 60).findSomeM? fun minute => c.tryMinute zone after earliest date hour minute) = .ok r ∧
        FirstIn (fun w => ∃ minute ∈ List.range 60, w = atMinute date (hour * 60 + minute) ∧
          c.minutes.testBit minute = true ∧ earliest ≤ hour * 60 + minute) (fun w => resolveWallTime zone w after) r := by
    intro hour
    refine firstIn_findSomeM? (fun minute hminute => tryMinute_eq_ok (List.mem_range.mp hminute)) ?_
    refine List.pairwise_lt_range.imp fun {i j} hij => ?_
    rintro x y ⟨rfl, _⟩ ⟨rfl, _⟩
    unfold atMinute minuteMs
    omega
  have hhours : ∀ hour ∈ List.range 24, ∃ r, (do
      if ← bitSet c.hours hour then
        (List.range 60).findSomeM? fun minute => c.tryMinute zone after earliest date hour minute
      else pure none) = .ok r ∧
        FirstIn (fun w => c.hours.testBit hour = true ∧ ∃ minute ∈ List.range 60,
          w = atMinute date (hour * 60 + minute) ∧ c.minutes.testBit minute = true ∧ earliest ≤ hour * 60 + minute)
          (fun w => resolveWallTime zone w after) r := by
    intro hour hhour
    have hlt : hour < 64 := (List.mem_range.mp hhour).trans (by decide)
    rw [bitSet_eq_ok hlt]
    cases hset : c.hours.testBit hour with
    | false => exact ⟨none, rfl, firstIn_empty fun w hw => absurd hw.1 (by decide)⟩
    | true =>
      obtain ⟨r, hr, hfirst⟩ := hminutes hour
      exact ⟨r, hr, hfirst.congr fun w => by simp⟩
  obtain ⟨r, hr, hfirst⟩ := firstIn_findSomeM? hhours (List.pairwise_lt_range.imp fun {i j} hij => by
    rintro x y ⟨_, m, hm, rfl, _⟩ ⟨_, n, hn, rfl, _⟩
    rw [List.mem_range] at hm hn
    unfold atMinute minuteMs
    omega)
  exact ⟨r, hr, hfirst.congr fun w => day_points⟩

theorem tryDay_eq_ok : ∃ r, c.tryDay cal zone after earliest date = .ok r ∧
    FirstIn (fun w => c.Stop cal w ∧ dateOf w = date ∧ earliest ≤ minuteOfDay w)
      (fun w => resolveWallTime zone w after) r := by
  obtain ⟨b, hb, hiff⟩ := @dayMatches_eq_ok cal c date
  unfold tryDay
  rw [hb]
  cases b with
  | false =>
    refine ⟨none, rfl, firstIn_empty ?_⟩
    rintro w ⟨hstop, rfl, _⟩
    exact absurd (hiff.mpr hstop.day) (by decide)
  | true =>
    obtain ⟨r, hr, hfirst⟩ : ∃ r, c.searchDay zone after earliest date = .ok r ∧ _ := searchDay_eq_ok
    refine ⟨r, hr, hfirst.congr fun w => ⟨?_, ?_⟩⟩
    · rintro ⟨hwhole, rfl, hearliest, htime⟩
      exact ⟨⟨hwhole, hiff.mp rfl, htime⟩, rfl, hearliest⟩
    · rintro ⟨hstop, rfl, hearliest⟩
      exact ⟨hstop.whole, rfl, hearliest, hstop.time⟩

theorem searchDays_eq_ok (hlast : date ≤ cal.lastDay) :
    ∃ r, c.searchDays cal zone after days earliest date = .ok r ∧
      FirstIn (fun w => c.Stop cal w ∧ date ≤ dateOf w ∧ dateOf w < date + days ∧ dateOf w ≤ cal.lastDay ∧
        (dateOf w = date → earliest ≤ minuteOfDay w)) (fun w => resolveWallTime zone w after) r := by
  induction days generalizing earliest date with
  | zero =>
    refine ⟨none, rfl, firstIn_empty ?_⟩
    rintro w ⟨_, hle, hlt, _⟩
    omega
  | succ days ih =>
    obtain ⟨r, hr, hfirst⟩ : ∃ r, c.tryDay cal zone after earliest date = .ok r ∧ _ := tryDay_eq_ok
    unfold searchDays
    rw [hr]
    cases r with
    | some atMs =>
      obtain ⟨x, ⟨hstop, hdate, hearliest⟩, hg, hmin⟩ := hfirst
      refine ⟨some atMs, rfl, x, ⟨hstop, by omega, by omega, by omega, fun _ => hearliest⟩, hg, ?_⟩
      rintro y ⟨hstop', hle, _, _, hearliest'⟩ hyx
      have hsame : dateOf y = date := by
        have hmono := dateOf_mono hyx.le
        omega
      exact hmin y ⟨hstop', hsame, hearliest' hsame⟩ hyx
    | none =>
      by_cases hnext : date < cal.lastDay
      · obtain ⟨r, hr, hrest⟩ := @ih (date + 1) 0 (by omega)
        refine ⟨r, ?_, (hfirst.append hrest).congr fun w => ⟨?_, ?_⟩⟩
        · show (if date < cal.lastDay then searchDays c cal zone after days 0 (date + 1) else pure none) = _
          rw [if_pos hnext, hr]
        · rintro (⟨hstop, hdate, hearliest⟩ | ⟨hstop, hle, hlt, hlast', _⟩)
          · exact ⟨hstop, by omega, by omega, by omega, fun _ => hearliest⟩
          · exact ⟨hstop, by omega, by omega, hlast', fun heq => absurd heq (by omega)⟩
        · rintro ⟨hstop, hle, hlt, hlast', hearliest⟩
          by_cases hdate : dateOf w = date
          · exact .inl ⟨hstop, hdate, hearliest hdate⟩
          · exact .inr ⟨hstop, by omega, by omega, hlast', fun _ => Nat.zero_le _⟩
      · refine ⟨none, ?_, hfirst.congr fun w => ⟨?_, ?_⟩⟩
        · show (if date < cal.lastDay then searchDays c cal zone after days 0 (date + 1) else pure none) = _
          rw [if_neg hnext]
          rfl
        · rintro ⟨hstop, hdate, hearliest⟩
          exact ⟨hstop, by omega, by omega, by omega, fun _ => hearliest⟩
        · rintro ⟨hstop, hle, hlt, hlast', hearliest⟩
          have hdate : dateOf w = date := by omega
          exact ⟨hstop, hdate, hearliest hdate⟩

theorem nextAfterFloor_eq_ok {floor : ℕ} (ha : wallOf cal zone after = some a) (hb : wallOf cal zone floor = some b) :
    ∃ r, c.nextAfterFloor cal zone after floor = .ok r ∧
      FirstIn (fun w => c.Stop cal w ∧ max a b < w ∧ cal.Has w ∧
        dateOf w < dateOf (atMinute (dateOf (max a b)) (minuteOfDay (max a b)) + minuteMs) + cronSearchDays)
        (fun w => resolveWallTime zone w after) r := by
  have hhas : cal.Has (max a b) := by
    have hof : ∀ {ms : ℕ} {x : ℤ}, wallOf cal zone ms = some x → cal.Has x := by
      intro ms x hx
      unfold wallOf at hx
      split_ifs at hx with h
      rw [← Option.some.inj hx]
      exact h.2.2
    rcases max_choice a b with h | h
    · rw [h]
      exact hof ha
    · rw [h]
      exact hof hb
  unfold nextAfterFloor
  rw [ha, hb]
  dsimp only
  have hlt := lt_next_minute (a := max a b)
  have hemod := next_minute_emod (a := max a b)
  have hiff : ∀ {w : ℤ}, w % minuteMs = 0 →
      (atMinute (dateOf (max a b)) (minuteOfDay (max a b)) + minuteMs ≤ w ↔ max a b < w) := next_minute_le_iff
  generalize atMinute (dateOf (max a b)) (minuteOfDay (max a b)) + minuteMs = first at hlt hemod hiff ⊢
  rw [has_iff_date] at hhas
  have hfrom : dateOf (max a b) ≤ dateOf first := dateOf_mono hlt.le
  by_cases hfirst : cal.Has first
  · rw [if_pos hfirst]
    rw [has_iff_date] at hfirst
    obtain ⟨r, hr, hsearch⟩ : ∃ r, c.searchDays cal zone after cronSearchDays (minuteOfDay first) (dateOf first) = .ok r ∧ _ :=
      searchDays_eq_ok hfirst.2
    refine ⟨r, hr, hsearch.congr fun w => ⟨?_, ?_⟩⟩
    · rintro ⟨hstop, hle, hlt, hlast, hearliest⟩
      have hge : first ≤ w := (le_iff_date_minute hemod hstop.whole).mpr ⟨hle, hearliest⟩
      exact ⟨hstop, (hiff hstop.whole).mp hge, has_iff_date.mpr ⟨by omega, hlast⟩, hlt⟩
    · rintro ⟨hstop, hgt, hhas', hlt⟩
      obtain ⟨hle, hearliest⟩ := (le_iff_date_minute hemod hstop.whole).mp ((hiff hstop.whole).mpr hgt)
      exact ⟨hstop, hle, hlt, (has_iff_date.mp hhas').2, hearliest⟩
  · rw [if_neg hfirst]
    refine ⟨none, rfl, firstIn_empty ?_⟩
    rintro w ⟨hstop, hgt, hhas', _⟩
    have hle : dateOf first ≤ dateOf w := dateOf_mono ((hiff hstop.whole).mpr hgt)
    rw [has_iff_date] at hfirst hhas'
    omega

end CronSchedule

/-! ## Where the offset is constant -/

/-- The instants in whole minutes of the wall clock, after `after`, that an expression matches. -/
structure Expression.MatchAt (e : Expression) (cal : Calendar) (offset : ℤ) (after instant : ℕ) : Prop where
  lt : after < instant
  has : cal.Has instant
  hasWall : cal.Has (instant + offset)
  whole : (instant + offset) % minuteMs = 0
  fits : e.Matches cal (instant + offset)

theorem resolveWallTime_fixed {offset w : ℤ} {after : ℕ} :
    resolveWallTime (Zone.fixed cal offset) w after =
      if cal.Has (w - offset) ∧ (after : ℤ) < w - offset then some (w - offset).toNat else none := by
  unfold resolveWallTime Zone.fixed
  dsimp only
  by_cases hhas : cal.Has (w - offset)
  · rw [if_pos hhas]
    unfold LocalResult.instants toMs
    by_cases hlt : (after : ℤ) < w - offset
    · rw [if_pos ⟨hhas, hlt⟩]
      have hpos : 0 ≤ w - offset := by omega
      have hafter : after < (w - offset).toNat := by omega
      rw [List.filterMap_cons, if_pos hpos, List.find?_cons_of_pos (by simpa using hafter)]
    · rw [if_neg fun h => hlt h.2]
      by_cases hpos : 0 ≤ w - offset
      · have hafter : ¬after < (w - offset).toNat := by omega
        rw [List.filterMap_cons, if_pos hpos, List.find?_cons_of_neg (by simpa using hafter)]
        rfl
      · rw [List.filterMap_cons, if_neg hpos]
        rfl
  · rw [if_neg hhas, if_neg fun h => hhas h.1]
    rfl

/-- **Cron expressions mean what they say and the next fire is minimal**: an accepted expression has the bits that its fields
denote; where the offset is constant, the next fire is the least matching instant, and there is none only if no instant matches
for `cronSearchDays` days; and nothing shifts by 64 or more. -/
theorem cron_next_fire (expression : String) : parseCron expression ≠ .error .shift ∧
    ∀ c, parseCron expression = .ok c → ∃ e : Expression, e.IsOf expression ∧ e.Parsed c ∧
      ∀ (cal : Calendar) (offset : ℤ), -dayMs < offset → offset < dayMs → ∀ after : ℕ,
        (∃ instant, c.nextAfterFloor cal (Zone.fixed cal offset) after after = .ok (some instant) ∧
          IsLeast {t | e.MatchAt cal offset after t} instant) ∨
        c.nextAfterFloor cal (Zone.fixed cal offset) after after = .ok none ∧
          ∀ instant, e.MatchAt cal offset after instant →
            dateOf (after + offset) + cronSearchDays ≤ dateOf (instant + offset) := by
  refine ⟨parseCron_ne_shift expression, fun c hparse => ?_⟩
  obtain ⟨e, hof, hparsed⟩ := parsed_of_parseCron hparse
  refine ⟨e, hof, hparsed, fun cal offset hlow hhigh after => ?_⟩
  -- the stops are the matching wall times
  have hstop : ∀ {w : ℤ}, c.Stop cal w ↔ w % minuteMs = 0 ∧ e.Matches cal w := by
    intro w
    rw [hparsed.matches_iff]
    exact ⟨fun h => ⟨h.whole, h.day, h.time⟩, fun h => ⟨h.1, h.2.1, h.2.2⟩⟩
  cases hwall : wallOf cal (Zone.fixed cal offset) after with
  | none =>
    refine .inr ⟨?_, fun instant hmatch => ?_⟩
    · unfold CronSchedule.nextAfterFloor
      rw [hwall]
      rfl
    · -- an instant that the calendar does not have is past its end, and so is every later one
      have hlast := cal.last_le
      have hfirst := cal.first_lt
      have hlt := hmatch.lt
      have hhas := hmatch.has
      have hhasWall := hmatch.hasWall
      unfold wallOf Zone.fixed at hwall
      dsimp only at hwall
      split_ifs at hwall with h
      unfold Calendar.Has dayMs minuteMs at *
      omega
  | some a =>
    have ha : a = after + offset := by
      unfold wallOf Zone.fixed at hwall
      dsimp only at hwall
      split_ifs at hwall
      exact (Option.some.inj hwall).symm
    obtain ⟨r, hr, hfirst⟩ := CronSchedule.nextAfterFloor_eq_ok (c := c) hwall hwall
    rw [max_self] at hfirst
    have hle : dateOf a ≤ dateOf (atMinute (dateOf a) (minuteOfDay a) + minuteMs) := dateOf_mono lt_next_minute.le
    generalize dateOf (atMinute (dateOf a) (minuteOfDay a) + minuteMs) = first at hfirst hle
    -- a matching instant is that of a stop
    have hmem : ∀ {instant : ℕ}, e.MatchAt cal offset after instant → dateOf (instant + offset) < first + cronSearchDays →
        (c.Stop cal (instant + offset) ∧ a < instant + offset ∧ cal.Has (instant + offset) ∧
          dateOf (instant + offset) < first + cronSearchDays) ∧
        resolveWallTime (Zone.fixed cal offset) (instant + offset) after = some instant := by
      intro instant hmatch hin
      have hlt := hmatch.lt
      have hback : (instant + offset - offset : ℤ) = instant := by omega
      refine ⟨⟨hstop.mpr ⟨hmatch.whole, hmatch.fits⟩, by omega, hmatch.hasWall, hin⟩, ?_⟩
      rw [resolveWallTime_fixed, hback, if_pos ⟨hmatch.has, by omega⟩, Int.toNat_natCast]
    cases r with
    | none =>
      refine .inr ⟨hr, fun instant hmatch => ?_⟩
      by_contra hlt
      rw [← ha] at hlt
      obtain ⟨hin, hresolve⟩ := hmem hmatch (by omega)
      have hnone := hfirst _ hin
      dsimp only at hnone
      rw [hresolve] at hnone
      cases hnone
    | some instant =>
      obtain ⟨w, ⟨hw, _, hhas, hdays⟩, hresolve, hmin⟩ := hfirst
      dsimp only at hresolve
      rw [resolveWallTime_fixed] at hresolve
      split_ifs at hresolve with hok
      have hinstant : (instant : ℤ) = w - offset := by
        have heq := Option.some.inj hresolve
        omega
      have hback : (instant : ℤ) + offset = w := by omega
      obtain ⟨hwhole, hmatches⟩ := hstop.mp hw
      refine .inl ⟨instant, hr, ⟨by omega, ?_, ?_, ?_, ?_⟩, fun other hother => ?_⟩
      · rw [hinstant]
        exact hok.1
      · rwa [hback]
      · rwa [hback]
      · rwa [hback]
      · by_contra hlt
        have hbefore : (other : ℤ) + offset < w := by omega
        have hmono := dateOf_mono hbefore.le
        obtain ⟨hin, hresolve'⟩ := hmem hother (by omega)
        have hnone := hmin _ hin hbefore
        dsimp only at hnone
        rw [hresolve'] at hnone
        cases hnone

/-- The bits of every quarter of an hour from nine to half past five, from Monday to Friday. -/
def weekdays : CronSchedule where
  minutes := 35185445863425
  hours := 261632
  daysOfMonth := 4294967294
  months := 8190
  daysOfWeek := 62
  domRestricted := false
  dowRestricted := true

/-- After a Friday evening comes a Monday morning. -/
theorem cron_next_fire_weekdays : ∃ e : Expression, e.IsOf "*/15 9-17 * * MON-FRI" ∧ e.Parsed weekdays ∧
    weekdays.nextAfterFloor gregorian (Zone.fixed gregorian 0) 151200000 151200000 = .ok (some 378000000) ∧
    IsLeast {t | e.MatchAt gregorian 0 151200000 t} 378000000 := by
  have hparse : parseCron "*/15 9-17 * * MON-FRI" = .ok weekdays := by decide +kernel
  have hrun : weekdays.nextAfterFloor gregorian (Zone.fixed gregorian 0) 151200000 151200000 = .ok (some 378000000) := by
    decide +kernel
  obtain ⟨e, hof, hparsed, hnext⟩ := (cron_next_fire "*/15 9-17 * * MON-FRI").2 weekdays hparse
  refine ⟨e, hof, hparsed, hrun, ?_⟩
  rcases hnext gregorian 0 (by decide) (by decide) 151200000 with ⟨instant, hok, hleast⟩ | ⟨hnone, _⟩
  · rw [hrun, Except.ok.injEq, Option.some.injEq] at hok
    rwa [hok]
  · rw [hrun] at hnone
    cases hnone

end AnimaCore.Schedules
