import Mathlib.Data.Int.Basic
import Mathlib.Tactic.IntervalCases
import Mathlib.Tactic.Ring
import Mathlib.Tactic.SplitIfs

/-!
# AnimaCore.Lib.Gregorian — the proleptic Gregorian calendar

A calendar is a date for each day number: day 0 is the first of January 1970, and each day is followed by its morrow.

* `Date.tomorrow`: the next date, by the lengths of the months and the leap years.
* `IsGregorian`: a function that is the calendar.  `IsGregorian.eq`: there is at most one.
* `civilFromDays`: the date of a day number, through eras of four hundred years that begin in March.
* `isGregorian_civilFromDays`: it is the calendar.
-/

namespace AnimaCore.Lib

structure Date where
  year : ℤ
  month : ℤ
  day : ℤ
  deriving DecidableEq, Repr

def isLeap (year : ℤ) : Bool := year % 4 == 0 && (year % 100 != 0 || year % 400 == 0)

def monthLength (year month : ℤ) : ℤ :=
  if month = 2 then (if isLeap year then 29 else 28)
  else if month = 4 ∨ month = 6 ∨ month = 9 ∨ month = 11 then 30
  else 31

namespace Date

structure Valid (d : Date) : Prop where
  month_pos : 1 ≤ d.month
  month_le : d.month ≤ 12
  day_pos : 1 ≤ d.day
  day_le : d.day ≤ monthLength d.year d.month

def tomorrow (d : Date) : Date :=
  if d.day < monthLength d.year d.month then { d with day := d.day + 1 }
  else if d.month < 12 then ⟨d.year, d.month + 1, 1⟩
  else ⟨d.year + 1, 1, 1⟩

theorem tomorrow_inj {d e : Date} (hd : d.Valid) (he : e.Valid) (h : d.tomorrow = e.tomorrow) : d = e := by
  obtain ⟨y, m, k⟩ := d
  obtain ⟨y', m', k'⟩ := e
  obtain ⟨hm, hm12, hk, hkle⟩ := hd
  obtain ⟨hm', hm12', hk', hkle'⟩ := he
  dsimp only at *
  unfold tomorrow at h
  dsimp only at h
  -- The first of a month is the morrow of a last, and any other day that of the day before.
  split_ifs at h
  all_goals
    rw [Date.mk.injEq] at h
    obtain ⟨hy, hmm, hkk⟩ := h
  · rw [Date.mk.injEq]
    omega
  · omega
  · omega
  · omega
  · have hm : m = m' := by omega
    subst hy hm
    rw [Date.mk.injEq]
    omega
  · omega
  · omega
  · omega
  · have hy : y = y' := by omega
    have hm : m = m' := by omega
    subst hy hm
    rw [Date.mk.injEq]
    omega

end Date

/-- A function from day numbers to dates that is the calendar. -/
structure IsGregorian (f : ℤ → Date) : Prop where
  epoch : f 0 = ⟨1970, 1, 1⟩
  valid : ∀ n, (f n).Valid
  next : ∀ n, f (n + 1) = (f n).tomorrow

theorem IsGregorian.eq {f g : ℤ → Date} (hf : IsGregorian f) (hg : IsGregorian g) (n : ℤ) : f n = g n := by
  induction n using Int.induction_on with
  | zero => rw [hf.epoch, hg.epoch]
  | succ n ih => rw [hf.next, hg.next, ih]
  | pred n ih =>
    have hback : ∀ h : ℤ → Date, IsGregorian h → (h (-(n : ℤ) - 1)).tomorrow = h (-(n : ℤ)) := by
      intro h hh
      rw [← hh.next, Int.sub_add_cancel]
    refine Date.tomorrow_inj (hf.valid _) (hg.valid _) ?_
    rw [hback f hf, hback g hg, ih]

/-! ## Eras -/

/-- The year of an era that begins in March, of a day of the era. -/
def yearOfEra (dayOfEra : ℤ) : ℤ := (dayOfEra - dayOfEra / 1460 + dayOfEra / 36524 - dayOfEra / 146096) / 365

/-- The days of an era before one of its years. -/
def yearStart (year : ℤ) : ℤ := 365 * year + year / 4 - year / 100

def monthStart (month : ℤ) : ℤ := (153 * month + 2) / 5

/-- The date of a month and a day of a year that begins in March. -/
def marchDate (era year month day : ℤ) : Date :=
  { year := year + era * 400 + (if (if month < 10 then month + 3 else month - 9) ≤ 2 then 1 else 0)
    month := if month < 10 then month + 3 else month - 9
    day := day + 1 }

def civilFromDays (days : ℤ) : Date :=
  let z := days + 719468
  let dayOfEra := z % 146097
  let year := yearOfEra dayOfEra
  let dayOfYear := dayOfEra - yearStart year
  let month := (5 * dayOfYear + 2) / 153
  marchDate (z / 146097) year month (dayOfYear - monthStart month)

/-- The last day of the year that begins in March, which is a leap day or not. -/
def lastDay (year : ℤ) : ℤ := if (year + 1) % 4 = 0 ∧ ((year + 1) % 100 ≠ 0 ∨ year = 399) then 365 else 364

theorem era_split {n : ℤ} (hlow : 0 ≤ n) (hhigh : n < 146097) : ∃ c q k d : ℤ, (0 ≤ c ∧ c ≤ 3) ∧ (0 ≤ q ∧ q ≤ 24) ∧
    (0 ≤ k ∧ k ≤ 3) ∧ (0 ≤ d ∧ d ≤ 365) ∧ (d = 365 → k = 3 ∧ (q < 24 ∨ c = 3)) ∧
    n = 36524 * c + 1461 * q + 365 * k + d := by
  obtain ⟨c, hc, hcn, hlast⟩ : ∃ c : ℤ, (0 ≤ c ∧ c ≤ 3) ∧ 36524 * c ≤ n ∧ (n < 36524 * (c + 1) ∨ c = 3) := by
    by_cases h : n / 36524 ≤ 3
    · exact ⟨n / 36524, by omega, by omega, by omega⟩
    · exact ⟨3, by omega, by omega, by omega⟩
  obtain ⟨q, t, hq, ht, hqt⟩ : ∃ q t : ℤ, (0 ≤ q ∧ q ≤ 24) ∧ (0 ≤ t ∧ t ≤ 1460) ∧ n - 36524 * c = 1461 * q + t :=
    ⟨(n - 36524 * c) / 1461, (n - 36524 * c) % 1461, by omega, by omega, by omega⟩
  obtain ⟨k, hk, hkt, hyear⟩ : ∃ k : ℤ, (0 ≤ k ∧ k ≤ 3) ∧ 365 * k ≤ t ∧ (t < 365 * (k + 1) ∨ k = 3) := by
    by_cases h : t / 365 ≤ 3
    · exact ⟨t / 365, by omega, by omega, by omega⟩
    · exact ⟨3, by omega, by omega, by omega⟩
  exact ⟨c, q, k, t - 365 * k, hc, hq, hk, by omega, by omega, by omega⟩

theorem yearStart_eq {c q k : ℤ} (hq : 0 ≤ q ∧ q ≤ 24) (hk : 0 ≤ k ∧ k ≤ 3) :
    yearStart (100 * c + 4 * q + k) = 36524 * c + 1461 * q + 365 * k := by
  have hfour : (100 * c + 4 * q + k) / 4 = 25 * c + q := by omega
  have hhundred : (100 * c + 4 * q + k) / 100 = c := by omega
  unfold yearStart
  rw [hfour, hhundred]
  ring

theorem yearOfEra_eq {c q k d : ℤ} (hc : 0 ≤ c ∧ c ≤ 3) (hq : 0 ≤ q ∧ q ≤ 24) (hk : 0 ≤ k ∧ k ≤ 3)
    (hd : 0 ≤ d ∧ d ≤ 365) (hleap : d = 365 → k = 3 ∧ (q < 24 ∨ c = 3)) :
    yearOfEra (36524 * c + 1461 * q + 365 * k + d) = 100 * c + 4 * q + k := by
  obtain ⟨n, hn⟩ : ∃ n, n = 36524 * c + 1461 * q + 365 * k + d := ⟨_, rfl⟩
  have hcentury : n / 36524 - n / 146096 = c := by
    obtain ⟨r, hr, hsum⟩ : ∃ r : ℤ, (0 ≤ r ∧ r ≤ 36524) ∧ n = 36524 * c + r :=
      ⟨1461 * q + 365 * k + d, by omega, by omega⟩
    have hend : r = 36524 → c = 3 := by omega
    by_cases hlast : r = 36524
    · omega
    · have hdiv : n / 36524 = c := by omega
      have hnone : n / 146096 = 0 := by omega
      omega
  have hcycle : n / 1460 = 25 * c + q + (if 1460 ≤ 24 * c + q + 365 * k + d then 1 else 0) := by
    split_ifs <;> omega
  rw [← hn]
  unfold yearOfEra
  rw [hcycle]
  split_ifs <;> omega

theorem lastDay_eq {c q k : ℤ} (hc : 0 ≤ c ∧ c ≤ 3) (hq : 0 ≤ q ∧ q ≤ 24) (hk : 0 ≤ k ∧ k ≤ 3) :
    lastDay (100 * c + 4 * q + k) = if k = 3 ∧ (q < 24 ∨ c = 3) then 365 else 364 := by
  unfold lastDay
  refine if_congr ?_ rfl rfl
  omega

theorem yearOfEra_spec {n : ℤ} (hlow : 0 ≤ n) (hhigh : n < 146097) :
    (0 ≤ yearOfEra n ∧ yearOfEra n ≤ 399) ∧ yearStart (yearOfEra n) ≤ n ∧
      n ≤ yearStart (yearOfEra n) + lastDay (yearOfEra n) := by
  obtain ⟨c, q, k, d, hc, hq, hk, hd, hleap, rfl⟩ := era_split hlow hhigh
  rw [yearOfEra_eq hc hq hk hd hleap, yearStart_eq hq hk, lastDay_eq hc hq hk]
  split_ifs <;> omega

theorem yearOfEra_succ {n : ℤ} (hlow : 0 ≤ n) (hhigh : n + 1 < 146097) :
    yearOfEra (n + 1) =
      if n - yearStart (yearOfEra n) < lastDay (yearOfEra n) then yearOfEra n else yearOfEra n + 1 := by
  obtain ⟨c, q, k, d, hc, hq, hk, hd, hleap, rfl⟩ := era_split hlow (by omega)
  rw [yearOfEra_eq hc hq hk hd hleap, yearStart_eq hq hk, lastDay_eq hc hq hk]
  have hday : 36524 * c + 1461 * q + 365 * k + d - (36524 * c + 1461 * q + 365 * k) = d := by omega
  rw [hday]
  by_cases hmore : d < if k = 3 ∧ (q < 24 ∨ c = 3) then 365 else 364
  · have hsum : 36524 * c + 1461 * q + 365 * k + d + 1 = 36524 * c + 1461 * q + 365 * k + (d + 1) := by omega
    rw [if_pos hmore, hsum]
    refine yearOfEra_eq hc hq hk (by split_ifs at hmore <;> omega) fun hleapDay => ?_
    split_ifs at hmore with hyear
    · exact hyear
    · omega
  · rw [if_neg hmore]
    by_cases hk3 : k < 3
    · -- the next year of the same cycle
      have hsum : 36524 * c + 1461 * q + 365 * k + d + 1 = 36524 * c + 1461 * q + 365 * (k + 1) + 0 := by
        rw [if_neg (by omega)] at hmore
        omega
      rw [hsum, yearOfEra_eq hc hq (by omega) (by omega) (by omega)]
      omega
    · by_cases hq24 : q < 24
      · -- the first year of the next cycle
        have hsum : 36524 * c + 1461 * q + 365 * k + d + 1 = 36524 * c + 1461 * (q + 1) + 365 * 0 + 0 := by
          rw [if_pos (by omega)] at hmore
          omega
        rw [hsum, yearOfEra_eq hc (by omega) (by omega) (by omega) (by omega)]
        omega
      · -- the first year of the next century, since the era is not over
        have hc3 : c < 3 := by
          by_contra hlast
          rw [if_pos (by omega)] at hmore
          omega
        have hsum : 36524 * c + 1461 * q + 365 * k + d + 1 = 36524 * (c + 1) + 1461 * 0 + 365 * 0 + 0 := by
          rw [if_neg (by omega)] at hmore
          omega
        rw [hsum, yearOfEra_eq (by omega) (by omega) (by omega) (by omega) (by omega)]
        omega

/-! ## Months -/

theorem monthStart_succ {month : ℤ} (hlow : 0 ≤ month) (hhigh : month ≤ 10) :
    monthStart (month + 1) - monthStart month = if month = 1 ∨ month = 3 ∨ month = 6 ∨ month = 8 then 30 else 31 := by
  interval_cases month <;> decide

theorem month_spec {day : ℤ} (hlow : 0 ≤ day) (hhigh : day ≤ 365) :
    (0 ≤ (5 * day + 2) / 153 ∧ (5 * day + 2) / 153 ≤ 11) ∧ monthStart ((5 * day + 2) / 153) ≤ day ∧
      ((5 * day + 2) / 153 < 11 → day < monthStart ((5 * day + 2) / 153 + 1)) := by
  unfold monthStart
  omega

theorem month_succ {day : ℤ} (hlow : 0 ≤ day) (hhigh : day < 365) : (5 * (day + 1) + 2) / 153 =
    if (5 * day + 2) / 153 < 11 ∧ day + 1 = monthStart ((5 * day + 2) / 153 + 1) then (5 * day + 2) / 153 + 1
    else (5 * day + 2) / 153 := by
  unfold monthStart
  split_ifs <;> omega

/-! ## The calendar -/

theorem monthLength_marchDate {era year month day : ℤ} (hy : 0 ≤ year ∧ year ≤ 399) (hm : 0 ≤ month ∧ month ≤ 11) :
    monthLength (marchDate era year month day).year (marchDate era year month day).month =
      if month < 11 then monthStart (month + 1) - monthStart month else lastDay year - monthStart 11 + 1 := by
  by_cases hlast : month = 11
  · subst hlast
    have hleap : isLeap (year + era * 400 + 1) = decide ((year + 1) % 4 = 0 ∧ ((year + 1) % 100 ≠ 0 ∨ year = 399)) := by
      unfold isLeap
      rw [Bool.eq_iff_iff]
      simp only [Bool.and_eq_true, Bool.or_eq_true, beq_iff_eq, bne_iff_ne, decide_eq_true_eq]
      omega
    show monthLength (year + era * 400 + 1) 2 = lastDay year - monthStart 11 + 1
    unfold monthLength lastDay
    rw [if_pos rfl, hleap]
    by_cases h : (year + 1) % 4 = 0 ∧ ((year + 1) % 100 ≠ 0 ∨ year = 399)
    · rw [if_pos h, if_pos (decide_eq_true h)]
      decide
    · rw [if_neg h, if_neg (by rw [decide_eq_true_eq]; exact h)]
      decide
  · rw [if_pos (by omega), monthStart_succ hm.1 (by omega)]
    unfold monthLength marchDate
    dsimp only
    split_ifs <;> omega

theorem civilFromDays_eq (days : ℤ) : ∃ era year day : ℤ, (0 ≤ year ∧ year ≤ 399) ∧ (0 ≤ day ∧ day ≤ lastDay year) ∧
    days + 719468 = era * 146097 + yearStart year + day ∧ year = yearOfEra (yearStart year + day) ∧
    civilFromDays days = marchDate era year ((5 * day + 2) / 153) (day - monthStart ((5 * day + 2) / 153)) := by
  have hrange : 0 ≤ (days + 719468) % 146097 ∧ (days + 719468) % 146097 < 146097 := by omega
  obtain ⟨hyear, hlow, hhigh⟩ := yearOfEra_spec hrange.1 hrange.2
  refine ⟨(days + 719468) / 146097, yearOfEra ((days + 719468) % 146097), (days + 719468) % 146097 -
    yearStart (yearOfEra ((days + 719468) % 146097)), hyear, ⟨by omega, by omega⟩, by omega, ?_, rfl⟩
  have hsum : yearStart (yearOfEra ((days + 719468) % 146097)) + ((days + 719468) % 146097 -
      yearStart (yearOfEra ((days + 719468) % 146097))) = (days + 719468) % 146097 := by omega
  rw [hsum]

theorem civilFromDays_of {days era year day : ℤ} (hyear : 0 ≤ year ∧ year ≤ 399) (hday : 0 ≤ day ∧ day ≤ lastDay year)
    (hsum : days + 719468 = era * 146097 + yearStart year + day) (hspec : year = yearOfEra (yearStart year + day)) :
    civilFromDays days = marchDate era year ((5 * day + 2) / 153) (day - monthStart ((5 * day + 2) / 153)) := by
  have hend : yearStart year + lastDay year < 146097 := by
    unfold yearStart lastDay
    split_ifs <;> omega
  have hstart : 0 ≤ yearStart year := by
    unfold yearStart
    omega
  have hera : (days + 719468) / 146097 = era := by omega
  have hof : (days + 719468) % 146097 = yearStart year + day := by omega
  have hdoy : yearStart year + day - yearStart year = day := by omega
  unfold civilFromDays
  dsimp only
  rw [hera, hof, ← hspec, hdoy]

theorem lastDay_le (year : ℤ) : 364 ≤ lastDay year ∧ lastDay year ≤ 365 := by
  unfold lastDay
  split_ifs <;> omega

theorem yearStart_succ {year : ℤ} (hlow : 0 ≤ year) (hhigh : year < 399) :
    yearStart (year + 1) = yearStart year + lastDay year + 1 := by
  unfold yearStart lastDay
  split_ifs <;> omega

/-- **The date of a day number is that of the calendar.** -/
theorem isGregorian_civilFromDays : IsGregorian civilFromDays where
  epoch := by decide
  valid := by
    intro n
    obtain ⟨era, year, day, hyear, hday, -, -, heq⟩ := civilFromDays_eq n
    have hlast := lastDay_le year
    obtain ⟨hmonth, hstart, hend⟩ := month_spec hday.1 (by omega)
    have hlength :=
      @monthLength_marchDate era year ((5 * day + 2) / 153) (day - monthStart ((5 * day + 2) / 153)) hyear hmonth
    rw [heq]
    generalize (5 * day + 2) / 153 = month at *
    refine ⟨?_, ?_, ?_, ?_⟩
    · show 1 ≤ if month < 10 then month + 3 else month - 9
      split_ifs <;> omega
    · show (if month < 10 then month + 3 else month - 9) ≤ 12
      split_ifs <;> omega
    · show 1 ≤ day - monthStart month + 1
      omega
    · rw [hlength]
      show day - monthStart month + 1 ≤ _
      split_ifs with hshort
      · have := hend hshort
        omega
      · have h11 : month = 11 := by omega
        rw [h11]
        omega
  next := by
    intro n
    obtain ⟨era, year, day, hyear, hday, hsum, hspec, heq⟩ := civilFromDays_eq n
    have hlast := lastDay_le year
    obtain ⟨hmonth, hstart, hend⟩ := month_spec hday.1 (by omega)
    have hlength :=
      @monthLength_marchDate era year ((5 * day + 2) / 153) (day - monthStart ((5 * day + 2) / 153)) hyear hmonth
    rw [heq]
    unfold Date.tomorrow
    rw [hlength]
    by_cases hmore : day < lastDay year
    · -- a day of the same year
      have hsucc := month_succ hday.1 (by omega : day < 365)
      have hyear' : year = yearOfEra (yearStart year + (day + 1)) := by
        have hend' : yearStart year + lastDay year < 146097 := by
          unfold yearStart lastDay
          split_ifs <;> omega
        have hstart' : 0 ≤ yearStart year := by
          unfold yearStart
          omega
        have hnext := @yearOfEra_succ (yearStart year + day) (by omega) (by omega)
        rw [← hspec, if_pos (by omega)] at hnext
        rw [← Int.add_assoc, hnext]
      rw [@civilFromDays_of (n + 1) era year (day + 1) hyear ⟨by omega, by omega⟩ (by omega) hyear', hsucc]
      have hkind := @monthStart_succ ((5 * day + 2) / 153) hmonth.1
      generalize (5 * day + 2) / 153 = month at *
      by_cases hfirst : month < 11 ∧ day + 1 = monthStart (month + 1)
      · -- the first of the next month
        rw [if_pos hfirst]
        have hnot : ¬(marchDate era year month (day - monthStart month)).day <
            if month < 11 then monthStart (month + 1) - monthStart month else lastDay year - monthStart 11 + 1 := by
          rw [if_pos hfirst.1]
          show ¬day - monthStart month + 1 < monthStart (month + 1) - monthStart month
          omega
        rw [if_neg hnot]
        unfold marchDate
        dsimp only
        rw [← hfirst.2]
        split_ifs <;> rw [Date.mk.injEq] <;> omega
      · have hday' : (marchDate era year month (day - monthStart month)).day <
            if month < 11 then monthStart (month + 1) - monthStart month else lastDay year - monthStart 11 + 1 := by
          show day - monthStart month + 1 <
            if month < 11 then monthStart (month + 1) - monthStart month else lastDay year - monthStart 11 + 1
          by_cases hshort : month < 11
          · rw [if_pos hshort]
            have := hend hshort
            omega
          · have h11 : month = 11 := by omega
            rw [if_neg hshort, h11]
            omega
        rw [if_neg hfirst, if_pos hday']
        unfold marchDate
        rw [Date.mk.injEq]
        refine ⟨rfl, rfl, ?_⟩
        show day + 1 - monthStart month + 1 = day - monthStart month + 1 + 1
        omega
    · -- the first of March of the next year
      have h11 : (5 * day + 2) / 153 = 11 := by omega
      have hfull : day = lastDay year := by omega
      have hnot : ¬(marchDate era year 11 (day - monthStart 11)).day <
          if (11 : ℤ) < 11 then monthStart (11 + 1) - monthStart 11 else lastDay year - monthStart 11 + 1 := by
        rw [if_neg (by decide)]
        show ¬day - monthStart 11 + 1 < lastDay year - monthStart 11 + 1
        omega
      rw [h11, if_neg hnot]
      have hmorrow : (if (marchDate era year 11 (day - monthStart 11)).month < 12 then
          (⟨(marchDate era year 11 (day - monthStart 11)).year,
            (marchDate era year 11 (day - monthStart 11)).month + 1, 1⟩ : Date)
          else ⟨(marchDate era year 11 (day - monthStart 11)).year + 1, 1, 1⟩) = ⟨year + era * 400 + 1, 3, 1⟩ := rfl
      rw [hmorrow]
      by_cases hend399 : year = 399
      · have hzero : (0 : ℤ) = yearOfEra (yearStart 0 + 0) := by decide
        have hstart0 : yearStart 0 = 0 := by decide
        have htotal : yearStart year + day + 1 = 146097 := by
          rw [hfull, hend399]
          decide
        have hfirst : civilFromDays (n + 1) = marchDate (era + 1) 0 0 0 :=
          @civilFromDays_of (n + 1) (era + 1) 0 0 (by decide) (by decide) (by omega) hzero
        rw [hfirst]
        unfold marchDate
        rw [Date.mk.injEq]
        exact ⟨by show 0 + (era + 1) * 400 + 0 = _; omega, rfl, rfl⟩
      · have hnext := yearStart_succ hyear.1 (by omega : year < 399)
        have hend' : yearStart (year + 1) + 0 < 146097 := by
          unfold yearStart
          omega
        have hstart' : 0 ≤ yearStart year := by
          unfold yearStart
          omega
        have hyear' : year + 1 = yearOfEra (yearStart (year + 1) + 0) := by
          have hsucc := @yearOfEra_succ (yearStart year + day) (by omega) (by omega)
          rw [← hspec, if_neg (by omega)] at hsucc
          rw [Int.add_zero, hnext, ← hfull, hsucc]
        have hlast' := lastDay_le (year + 1)
        have hfirst : civilFromDays (n + 1) = marchDate era (year + 1) 0 0 :=
          @civilFromDays_of (n + 1) era (year + 1) 0 (by omega) (by omega) (by omega) hyear'
        rw [hfirst]
        unfold marchDate
        rw [Date.mk.injEq]
        exact ⟨by show year + 1 + era * 400 + 0 = _; omega, rfl, rfl⟩

end AnimaCore.Lib
