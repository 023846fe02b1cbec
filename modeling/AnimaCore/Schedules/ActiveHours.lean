import AnimaCore.Schedules.NextFire
import AnimaCore.Schedules.Timing

/-!
# AnimaCore.Schedules.ActiveHours — fires inside the active hours

* `GapClear`: the opening that comes next is not moved past the end of the window.
-/

namespace AnimaCore.Schedules

open Lib
open AutomationEvents (ScheduleTrigger)

/-- What holds of the zones of `chrono_tz`: an instant of a wall time is in range and shows that wall time. -/
def Zone.Lawful (cal : Calendar) (zone : Zone) : Prop :=
  ∀ wall, cal.Has wall → ∀ instant ∈ (zone.fromLocal wall).instants, cal.Has instant ∧ instant + zone.offset instant = wall

theorem Zone.fixed_lawful (cal : Calendar) (offset : ℤ) : (Zone.fixed cal offset).Lawful cal := by
  intro wall _ instant hinstant
  unfold Zone.fixed at hinstant ⊢
  dsimp only at hinstant ⊢
  split_ifs at hinstant with hhas
  · rw [List.mem_singleton.mp hinstant]
    exact ⟨hhas, by omega⟩
  · cases hinstant

namespace ActiveWindow

variable {cal : Calendar} {w : ActiveWindow} {atMs opens : ℕ} {date l : ℤ} {k : ℕ}

/-! ## Open times -/

def length (w : ActiveWindow) : ℕ :=
  if w.start < w.finish then (w.finish : ℕ) - w.start else 1440 + w.finish - w.start

theorem length_pos : 0 < w.length := by
  have hlt := w.start.isLt
  unfold length
  split_ifs with h
  · rw [Fin.lt_def] at h
    omega
  · omega

theorem length_le : w.length ≤ 1440 := by
  have hlt := w.finish.isLt
  unfold length
  split_ifs with h
  · omega
  · rw [Fin.lt_def] at h
    omega

/-- The wall times at which the window is open. -/
def Inside (w : ActiveWindow) (l : ℤ) : Prop :=
  ∃ date, w.hasDay (weekday date) = true ∧ atMinute date w.start ≤ l ∧ l < atMinute date w.start + w.length * minuteMs

theorem contains_iff : w.contains cal atMs = true ↔ ∃ l, wallOf cal w.timeZone atMs = some l ∧ w.Inside l := by
  unfold contains
  cases hwall : wallOf cal w.timeZone atMs with
  | none => simp
  | some l =>
    simp only [Option.some.injEq, exists_eq_left']
    have hstart := w.start.isLt
    have hfinish := w.finish.isLt
    have hdate : ∀ {date : ℤ}, atMinute date w.start ≤ l ∧ l < atMinute date w.start + w.length * minuteMs →
        date = dateOf l ∨ date = dateOf l - 1 := by
      intro date h
      have hle := length_le (w := w)
      unfold atMinute dateOf dayMs minuteMs at *
      omega
    have hyesterday : weekday (dateOf l - 1) = (weekday (dateOf l) + 6) % 7 := by
      unfold weekday
      omega
    by_cases hlt : w.start < w.finish
    · rw [if_pos hlt, Bool.and_eq_true, decide_eq_true_eq]
      rw [Fin.lt_def] at hlt
      have hlen : w.length = (w.finish : ℕ) - w.start := if_pos (Fin.lt_def.mpr hlt)
      constructor
      · rintro ⟨hday, hle, hlt⟩
        refine ⟨dateOf l, hday, ?_⟩
        rw [hlen]
        unfold minuteOfDay atMinute dateOf dayMs minuteMs at *
        omega
      · rintro ⟨date, hday, hin⟩
        have hcases := hdate hin
        rw [hlen] at hin
        have hsame : date = dateOf l := by
          unfold atMinute dateOf dayMs minuteMs at *
          omega
        subst hsame
        refine ⟨hday, ?_⟩
        unfold minuteOfDay atMinute dateOf dayMs minuteMs at *
        omega
    · rw [if_neg hlt, Bool.or_eq_true, Bool.and_eq_true, Bool.and_eq_true, decide_eq_true_eq, decide_eq_true_eq,
        ← hyesterday]
      have hlen : w.length = 1440 + w.finish - w.start := if_neg hlt
      rw [Fin.lt_def] at hlt
      constructor
      · rintro (⟨hday, hle⟩ | ⟨hday, hlt⟩)
        · refine ⟨dateOf l, hday, ?_⟩
          rw [hlen]
          unfold minuteOfDay atMinute dateOf dayMs minuteMs at *
          omega
        · refine ⟨dateOf l - 1, hday, ?_⟩
          rw [hlen]
          unfold minuteOfDay atMinute dateOf dayMs minuteMs at *
          omega
      · rintro ⟨date, hday, hin⟩
        rcases hdate hin with rfl | rfl
        · refine .inl ⟨hday, ?_⟩
          unfold minuteOfDay atMinute dateOf dayMs minuteMs at *
          omega
        · refine .inr ⟨hday, ?_⟩
          rw [hlen] at hin
          unfold minuteOfDay atMinute dateOf dayMs minuteMs at *
          omega

/-! ## Openings -/

/-- The window opens on `date`, `k` minutes after its start: the first wall time that exists, with an instant from `atMs` on. -/
structure Opens (cal : Calendar) (w : ActiveWindow) (atMs : ℕ) (date : ℤ) (k : ℕ) : Prop where
  day : w.hasDay (weekday date) = true
  le : k ≤ dstGapSearchMinutes
  missing : ∀ j < k, existing cal w.timeZone (atMinute date w.start + j * minuteMs) = none
  found : ∃ instants, existing cal w.timeZone (atMinute date w.start + k * minuteMs) = some instants ∧
    ∃ instant ∈ instants, (atMs : ℤ) ≤ instant

theorem find?_toMs_eq_some {instants : List ℤ}
    (h : (instants.filterMap toMs).find? (fun opens => decide (atMs ≤ opens)) = some opens) :
    (opens : ℤ) ∈ instants ∧ atMs ≤ opens := by
  have hle := List.find?_some h
  obtain ⟨instant, hmem, hto⟩ := List.mem_filterMap.mp (List.mem_of_find?_eq_some h)
  unfold toMs at hto
  split_ifs at hto with hpos
  have heq := Option.some.inj hto
  have hinstant : (opens : ℤ) = instant := by omega
  exact ⟨hinstant ▸ hmem, of_decide_eq_true hle⟩

theorem find?_toMs_isSome {instants : List ℤ} {instant : ℤ} (hmem : instant ∈ instants) (hle : (atMs : ℤ) ≤ instant) :
    ((instants.filterMap toMs).find? fun opens => decide (atMs ≤ opens)).isSome = true := by
  rw [List.find?_isSome]
  refine ⟨instant.toNat, List.mem_filterMap.mpr ⟨instant, hmem, ?_⟩, decide_eq_true (by omega)⟩
  unfold toMs
  rw [if_pos (by omega)]

theorem opensOn_eq_some (h : w.opensOn cal atMs date = some opens) : atMs ≤ opens ∧ ∃ k instants, Opens cal w atMs date k ∧
    existing cal w.timeZone (atMinute date w.start + k * minuteMs) = some instants ∧ (opens : ℤ) ∈ instants := by
  unfold opensOn at h
  split_ifs at h with hday
  obtain ⟨hopening, _⟩ := Option.filter_eq_some_iff.mp h
  unfold opening at hopening
  rw [Option.join_eq_some_iff] at hopening
  obtain ⟨k, hk, hsome, hnone⟩ := findSome?_range_eq_some.mp hopening
  obtain ⟨instants, hexists, hfind⟩ := Option.map_eq_some_iff.mp hsome
  obtain ⟨hmem, hle⟩ := find?_toMs_eq_some hfind
  refine ⟨hle, k, instants, ⟨hday, by omega, fun j hj => ?_, instants, hexists, opens, hmem, by omega⟩, hexists, hmem⟩
  exact Option.map_eq_none_iff.mp (hnone j hj)

theorem opensOn_isSome (h : Opens cal w atMs date k) : (w.opensOn cal atMs date).isSome = true := by
  obtain ⟨instants, hexists, instant, hmem, hle⟩ := h.found
  obtain ⟨opens, hopens⟩ := Option.isSome_iff_exists.mp (find?_toMs_isSome hmem hle)
  have hopening : w.opening cal (atMinute date w.start) atMs = some opens := by
    unfold opening
    rw [Option.join_eq_some_iff, findSome?_range_eq_some]
    refine ⟨k, Nat.lt_succ_of_le h.le, ?_, fun j hj => ?_⟩
    · rw [hexists, Option.map_some, hopens]
    · rw [h.missing j hj, Option.map_none]
  unfold opensOn
  rw [if_pos h.day, hopening, Option.filter_some, if_pos (decide_eq_true (find?_toMs_eq_some hopens).2)]
  rfl

theorem Opens.unique {i j : ℕ} (h : Opens cal w atMs date i) (h' : Opens cal w atMs date j) : i = j := by
  rcases lt_trichotomy i j with hlt | heq | hlt
  · obtain ⟨instants, hexists, _⟩ := h.found
    rw [h'.missing i hlt] at hexists
    cases hexists
  · exact heq
  · obtain ⟨instants, hexists, _⟩ := h'.found
    rw [h.missing j hlt] at hexists
    cases hexists

theorem openFrom_firstIn {rounds : ℕ} (hlast : date ≤ cal.lastDay) :
    FirstIn (fun d => date ≤ d ∧ d < date + rounds ∧ d ≤ cal.lastDay) (w.opensOn cal atMs) (w.openFrom cal atMs rounds date) := by
  induction rounds generalizing date with
  | zero =>
    refine firstIn_empty ?_
    rintro d ⟨hle, hlt, _⟩
    omega
  | succ rounds ih =>
    unfold openFrom
    cases htoday : w.opensOn cal atMs date with
    | some opens =>
      refine ⟨date, ⟨le_refl _, by omega, hlast⟩, htoday, ?_⟩
      rintro d ⟨hle, _⟩ hlt
      omega
    | none =>
      have hone : FirstIn (fun d => d = date) (w.opensOn cal atMs) none := by
        rintro d rfl
        exact htoday
      by_cases hnext : date < cal.lastDay
      · show FirstIn _ _ (if date < cal.lastDay then _ else none)
        rw [if_pos hnext]
        refine (hone.append (@ih (date + 1) (by omega))).congr fun d => ?_
        omega
      · show FirstIn _ _ (if date < cal.lastDay then _ else none)
        rw [if_neg hnext]
        refine hone.congr fun d => ?_
        omega

theorem wallOf_of_existing {instants : List ℤ} (hzone : w.timeZone.Lawful cal)
    (hexists : existing cal w.timeZone l = some instants) (hmem : (opens : ℤ) ∈ instants) :
    wallOf cal w.timeZone opens = some l := by
  unfold existing at hexists
  split_ifs at hexists with hhas
  have hinstants : (w.timeZone.fromLocal l).instants = instants := by
    cases hfrom : w.timeZone.fromLocal l with
    | none =>
      rw [hfrom] at hexists
      cases hexists
    | single instant =>
      rw [hfrom] at hexists
      exact Option.some.inj hexists
    | ambiguous first second =>
      rw [hfrom] at hexists
      exact Option.some.inj hexists
  obtain ⟨hhas', hoffset⟩ := hzone l hhas opens (hinstants ▸ hmem)
  have hlast := cal.last_le
  have hsmall : opens < 2 ^ 63 := by
    unfold Calendar.Has at hhas'
    omega
  unfold wallOf
  rw [hoffset, if_pos ⟨hsmall, hhas', hhas⟩]

theorem inside_iff (hday : w.hasDay (weekday date) = true) (hk : k ≤ dstGapSearchMinutes) :
    w.Inside (atMinute date w.start + k * minuteMs) ↔ k < w.length := by
  have hle := length_le (w := w)
  constructor
  · rintro ⟨other, _, hin⟩
    unfold dstGapSearchMinutes at hk
    unfold atMinute dayMs minuteMs at hin
    omega
  · intro hlt
    refine ⟨date, hday, ?_⟩
    unfold minuteMs
    omega

/-- **The gap is clear**: the window is open, or it opens next at a wall time before its end. -/
def GapClear (cal : Calendar) (w : ActiveWindow) (atMs : ℕ) : Prop :=
  w.contains cal atMs = true ∨ ∀ l, wallOf cal w.timeZone atMs = some l → ∀ date k, dateOf l ≤ date → date ≤ dateOf l + 8 →
    Opens cal w atMs date k → (∀ earlier, dateOf l ≤ earlier → earlier < date → ∀ j, ¬Opens cal w atMs earlier j) → k < w.length

theorem has_of_wallOf {zone : Zone} (h : wallOf cal zone atMs = some l) :
    cal.Has atMs ∧ cal.Has l ∧ l = atMs + zone.offset atMs := by
  unfold wallOf at h
  split_ifs at h with hhas
  have heq := Option.some.inj h
  rw [← heq]
  exact ⟨hhas.2.1, hhas.2.2, rfl⟩

theorem le_of_nextOpen (h : w.nextOpen cal atMs = some opens) : atMs ≤ opens := by
  unfold nextOpen at h
  by_cases hin : w.contains cal atMs = true
  · rw [if_pos hin, Option.some.injEq] at h
    rw [h]
  · rw [if_neg hin] at h
    cases hwall : wallOf cal w.timeZone atMs with
    | none =>
      rw [hwall] at h
      cases h
    | some l =>
      rw [hwall] at h
      have hlast : dateOf l ≤ cal.lastDay := (has_iff_date.mp (has_of_wallOf hwall).2.1).2
      have hfirst : FirstIn _ (w.opensOn cal atMs) (w.openFrom cal atMs 9 (dateOf l)) := openFrom_firstIn hlast
      dsimp only at h
      rw [h] at hfirst
      obtain ⟨d, _, hopens, _⟩ := hfirst
      exact (opensOn_eq_some hopens).1

theorem nextOpen_iff (hzone : w.timeZone.Lawful cal) :
    (∀ opens, w.nextOpen cal atMs = some opens → w.contains cal opens = true) ↔ GapClear cal w atMs := by
  unfold nextOpen GapClear
  by_cases hin : w.contains cal atMs = true
  · rw [if_pos hin]
    refine iff_of_true (fun opens h => ?_) (.inl hin)
    rwa [← Option.some.inj h]
  · rw [if_neg hin]
    cases hwall : wallOf cal w.timeZone atMs with
    | none => exact iff_of_true (fun opens h => by cases h) (.inr fun l h => by cases h)
    | some l =>
      have hlast : dateOf l ≤ cal.lastDay := (has_iff_date.mp (has_of_wallOf hwall).2.1).2
      have hfirst : FirstIn _ (w.opensOn cal atMs) (w.openFrom cal atMs 9 (dateOf l)) := openFrom_firstIn hlast
      have hdate : ∀ {d : ℤ} {k : ℕ}, Opens cal w atMs d k → d ≤ cal.lastDay := by
        intro d k h
        obtain ⟨instants, hexists, _⟩ := h.found
        unfold existing at hexists
        split_ifs at hexists with hhas
        have hle := (has_iff_date.mp hhas).2
        have hmono : dateOf (atMinute d w.start) ≤ dateOf (atMinute d w.start + k * minuteMs) := dateOf_mono (by
          unfold minuteMs
          omega)
        rw [dateOf_at w.start.isLt] at hmono
        omega
      -- what opens at the instant that is found
      have hcontains : ∀ {d : ℤ} {o : ℕ}, w.opensOn cal atMs d = some o →
          ∃ k, Opens cal w atMs d k ∧ (w.contains cal o = true ↔ k < w.length) := by
        intro d o hopens
        obtain ⟨_, k, instants, h, hexists, hmem⟩ := opensOn_eq_some hopens
        refine ⟨k, h, ?_⟩
        rw [contains_iff, wallOf_of_existing hzone hexists hmem]
        simp only [Option.some.injEq, exists_eq_left']
        exact inside_iff h.day h.le
      have hnot : ∀ {d : ℤ}, w.opensOn cal atMs d = none → ∀ k, ¬Opens cal w atMs d k := by
        intro d hnone k h
        have hsome := opensOn_isSome h
        rw [hnone] at hsome
        cases hsome
      dsimp only
      constructor
      · intro hsafe
        refine .inr fun l' heq date k hge hle hopens hbefore => ?_
        obtain rfl := Option.some.inj heq
        cases hfrom : w.openFrom cal atMs 9 (dateOf l) with
        | none =>
          rw [hfrom] at hfirst
          exact absurd hopens (hnot (hfirst date ⟨hge, by omega, hdate hopens⟩) k)
        | some o =>
          rw [hfrom] at hfirst
          obtain ⟨d, ⟨hd, _, _⟩, ho, hmin⟩ := hfirst
          obtain ⟨j, hj, hiff⟩ := hcontains ho
          have hsame : d = date := by
            rcases lt_trichotomy d date with hlt | heq | hlt
            · exact absurd hj (hbefore d hd hlt j)
            · exact heq
            · exact absurd hopens (hnot (hmin date ⟨hge, by omega, hdate hopens⟩ hlt) k)
          subst hsame
          rw [hopens.unique hj]
          exact hiff.mp (hsafe o hfrom)
      · rintro (hcontains' | hclear) o hfrom
        · exact absurd hcontains' hin
        · rw [hfrom] at hfirst
          obtain ⟨d, ⟨hd, hlt, _⟩, ho, hmin⟩ := hfirst
          obtain ⟨k, hk, hiff⟩ := hcontains ho
          refine hiff.mpr (hclear l rfl d k hd (by omega) hk fun d' hd' hlt' j hj => ?_)
          exact hnot (hmin d' ⟨hd', by omega, hdate hj⟩ hlt') j hj

/-! ## A constant offset -/

variable {offset : ℤ}

theorem existing_fixed : existing cal (Zone.fixed cal offset) l =
    if cal.Has l ∧ cal.Has (l - offset) then some [l - offset] else none := by
  unfold existing Zone.fixed
  dsimp only
  by_cases hl : cal.Has l
  · rw [if_pos hl]
    by_cases hin : cal.Has (l - offset)
    · rw [if_pos hin, if_pos ⟨hl, hin⟩]
      rfl
    · rw [if_neg hin, if_neg fun h => hin h.2]
  · rw [if_neg hl, if_neg fun h => hl h.1]

theorem opensOn_fixed (hfixed : w.timeZone = Zone.fixed cal offset) (hday : w.hasDay (weekday date) = true)
    (hwall : cal.Has (atMinute date w.start)) (hhas : cal.Has (atMinute date w.start - offset))
    (hle : (atMs : ℤ) ≤ atMinute date w.start - offset) :
    w.opensOn cal atMs date = some (atMinute date w.start - offset).toNat := by
  have hexists : existing cal w.timeZone (atMinute date w.start + (0 : ℕ) * minuteMs) = some [atMinute date w.start - offset] := by
    rw [hfixed, Nat.cast_zero, zero_mul, add_zero, existing_fixed, if_pos ⟨hwall, hhas⟩]
  have hopens : Opens cal w atMs date 0 :=
    ⟨hday, Nat.zero_le _, fun j hj => absurd hj (Nat.not_lt_zero j), _, hexists, _, List.mem_singleton_self _, hle⟩
  obtain ⟨o, ho⟩ := Option.isSome_iff_exists.mp (opensOn_isSome hopens)
  obtain ⟨_, k, instants, hk, hexists', hmem⟩ := opensOn_eq_some ho
  obtain rfl := hk.unique hopens
  rw [hexists, Option.some.injEq] at hexists'
  rw [← hexists', List.mem_singleton] at hmem
  rw [ho]
  congr 1
  omega

theorem Opens.eq_zero_of_fixed (hfixed : w.timeZone = Zone.fixed cal offset) (h : Opens cal w atMs date k)
    (hwall : wallOf cal w.timeZone atMs = some l) (hdate : dateOf l ≤ date) : k = 0 := by
  obtain ⟨instants, hexists, _⟩ := h.found
  cases k with
  | zero => rfl
  | succ k =>
    have hmissing := h.missing 0 (Nat.succ_pos k)
    rw [hfixed, existing_fixed] at hexists hmissing
    split_ifs at hexists with hhas
    split_ifs at hmissing with hnot
    exfalso
    apply hnot
    obtain ⟨_, hl, heq⟩ := has_of_wallOf hwall
    rw [hfixed] at heq
    have hoffset : l = atMs + offset := heq
    have hfirst := cal.first_lt
    unfold Calendar.Has atMinute dateOf dayMs minuteMs at *
    omega

theorem nextOpen_fixed (hfixed : w.timeZone = Zone.fixed cal offset) (hlow : -dayMs < offset) (hhigh : offset < dayMs) :
    (∀ opens, w.nextOpen cal atMs = some opens → IsLeast {t | atMs ≤ t ∧ w.contains cal t = true} opens) ∧
      ((∃ day < 7, w.hasDay day = true) → cal.Has (atMs + 8 * dayMs) → cal.Has (atMs + offset + 8 * dayMs) →
        ∃ opens, w.nextOpen cal atMs = some opens) := by
  have hzone : w.timeZone.Lawful cal := hfixed ▸ Zone.fixed_lawful cal offset
  by_cases hin : w.contains cal atMs = true
  · have hopen : w.nextOpen cal atMs = some atMs := by
      unfold nextOpen
      rw [if_pos hin]
    rw [hopen]
    refine ⟨fun opens h => ?_, fun _ _ _ => ⟨atMs, rfl⟩⟩
    rw [← Option.some.inj h]
    exact ⟨⟨le_refl _, hin⟩, fun t ht => ht.1⟩
  · have hfirstDay := cal.first_lt
    cases hwall : wallOf cal w.timeZone atMs with
    | none =>
      have hopen : w.nextOpen cal atMs = none := by
        unfold nextOpen
        rw [if_neg hin, hwall]
      refine ⟨fun opens h => ?_, fun _ hhas hhas' => ?_⟩
      · rw [hopen] at h
        cases h
      · -- the calendar has the wall time if it has the one eight days later
        exfalso
        have hlast := cal.last_le
        unfold wallOf at hwall
        split_ifs at hwall with hnot
        apply hnot
        rw [hfixed]
        show atMs < 2 ^ 63 ∧ cal.Has atMs ∧ cal.Has (atMs + offset)
        unfold Calendar.Has dayMs minuteMs at *
        omega
    | some l =>
      obtain ⟨hhas, hl, heq⟩ := has_of_wallOf hwall
      rw [hfixed] at heq
      have hoffset : l = atMs + offset := heq
      have hopen : w.nextOpen cal atMs = w.openFrom cal atMs 9 (dateOf l) := by
        unfold nextOpen
        rw [if_neg hin, hwall]
      have hlast : dateOf l ≤ cal.lastDay := (has_iff_date.mp hl).2
      have hfirst : FirstIn _ (w.opensOn cal atMs) (w.openFrom cal atMs 9 (dateOf l)) := openFrom_firstIn hlast
      rw [hopen]
      have hstart := w.start.isLt
      -- a start from now on, before a time in range
      have hstarts : ∀ {d : ℤ} {bound : ℤ}, w.hasDay (weekday d) = true → l ≤ atMinute d w.start →
          atMinute d w.start ≤ bound → cal.Has bound → cal.Has (bound - offset) →
          dateOf l ≤ d ∧ d ≤ cal.lastDay ∧ w.opensOn cal atMs d = some (atMinute d w.start - offset).toNat := by
        intro d bound hday hle hbound hhas hhas'
        have hwall' : cal.Has (atMinute d w.start) := by
          unfold Calendar.Has at *
          omega
        have hin' : cal.Has (atMinute d w.start - offset) := by
          unfold Calendar.Has dayMs minuteMs at *
          omega
        have hmono := dateOf_mono hle
        rw [dateOf_at hstart] at hmono
        have hdate := (has_iff_date.mp hwall').2
        rw [dateOf_at hstart] at hdate
        exact ⟨hmono, hdate, opensOn_fixed hfixed hday hwall' hin' (by omega)⟩
      constructor
      · intro o ho
        rw [ho] at hfirst
        obtain ⟨d, ⟨hd, hrounds, _⟩, hfound, hmin⟩ := hfirst
        obtain ⟨hle, k, instants, hk, hexists, hmem⟩ := opensOn_eq_some hfound
        obtain rfl := hk.eq_zero_of_fixed hfixed hwall hd
        have hwallO := wallOf_of_existing hzone hexists hmem
        have hinside : w.contains cal o = true := by
          rw [contains_iff]
          exact ⟨_, hwallO, (inside_iff hk.day hk.le).mpr length_pos⟩
        obtain ⟨_, _, heqO⟩ := has_of_wallOf hwallO
        rw [hfixed] at heqO
        have hoffsetO : atMinute d w.start + (0 : ℕ) * minuteMs = o + offset := heqO
        rw [Nat.cast_zero, zero_mul, add_zero] at hoffsetO
        refine ⟨⟨hle, hinside⟩, fun t ht => ?_⟩
        obtain ⟨hge, hcontains⟩ := ht
        obtain ⟨lt, hwallT, d', hday', hlow', hhigh'⟩ := contains_iff.mp hcontains
        obtain ⟨hhasT, hl', heqT⟩ := has_of_wallOf hwallT
        rw [hfixed] at heqT
        have hoffsetT : lt = t + offset := heqT
        -- the window that `t` is in starts after `atMs`, which is not inside
        have hlater : l < atMinute d' w.start := by
          by_contra hnot
          refine hin (contains_iff.mpr ⟨l, hwall, d', hday', by omega, by omega⟩)
        obtain ⟨hd', hlast', hopens'⟩ := hstarts hday' hlater.le hlow' hl' (by
          rw [hoffsetT]
          have hback : (t + offset - offset : ℤ) = t := by omega
          rwa [hback])
        by_contra hlt
        have hbefore : d' < d := by
          unfold atMinute dayMs minuteMs at *
          omega
        rw [hmin d' ⟨hd', by omega, hlast'⟩ hbefore] at hopens'
        cases hopens'
      · rintro ⟨day, hday, hhasDay⟩ hhas8 hhas8'
        cases hfrom : w.openFrom cal atMs 9 (dateOf l) with
        | some o => exact ⟨o, rfl⟩
        | none =>
          exfalso
          rw [hfrom] at hfirst
          -- the first date from today on with that day of the week, or the same a week later
          obtain ⟨d, hge, hlt, hweekday⟩ : ∃ d, dateOf l ≤ d ∧ d < dateOf l + 7 ∧ weekday d = day := by
            refine ⟨dateOf l + (day - weekday (dateOf l) + 7) % 7, ?_⟩
            unfold weekday
            omega
          obtain ⟨d, hweekday, hle, hlt⟩ : ∃ d, weekday d = day ∧ l ≤ atMinute d w.start ∧ d ≤ dateOf l + 7 := by
            by_cases hle : l ≤ atMinute d w.start
            · exact ⟨d, hweekday, hle, by omega⟩
            · have hsame : d = dateOf l := by
                unfold atMinute dateOf dayMs minuteMs at *
                omega
              refine ⟨d + 7, ?_, ?_, by omega⟩
              · rw [← hweekday]
                unfold weekday
                omega
              · unfold atMinute dateOf dayMs minuteMs at *
                omega
          have hbound : atMinute d w.start ≤ l + 8 * dayMs := by
            unfold atMinute dateOf dayMs minuteMs at *
            omega
          have hback : l + 8 * dayMs - offset = atMs + 8 * dayMs := by omega
          obtain ⟨hd, hlast', hopens⟩ := hstarts (hweekday ▸ hhasDay) hle hbound (by rwa [hoffset]) (by rwa [hback])
          rw [hfirst d ⟨hd, by omega, hlast'⟩] at hopens
          cases hopens

/-! ## Accepted windows -/

theorem parse_eq_ok {clock : Clock} {hours : ActiveHours} (h : parse clock hours = .ok w) :
    (∃ day < 7, w.hasDay day = true) ∧ ∃ name, clock.zoneOf name = some w.timeZone := by
  unfold parse at h
  split at h
  · next start finish _ _ =>
    split_ifs at h with hsame hlength
    split at h
    · next days hdays =>
      obtain ⟨zone, hzone, h⟩ := bind_eq_ok.mp h
      have hw := Except.ok.inj h
      subst hw
      refine ⟨?_, ?_⟩
      · -- the last day of the list is set
        obtain ⟨front, day, heq⟩ : ∃ front day, hours.days = front ++ [day] :=
          ⟨_, _, (List.dropLast_append_getLast fun hnil => hlength (.inl hnil)).symm⟩
        rw [heq, List.foldlM_append] at hdays
        obtain ⟨before, _, hlast⟩ := Option.bind_eq_some_iff.mp hdays
        have hadd : addDay before day = some days := by simpa using hlast
        unfold addDay at hadd
        split_ifs at hadd with hbad
        rw [not_or, not_lt] at hbad
        refine ⟨day, by omega, ?_⟩
        have hset : days.testBit day = true := by
          rw [← Option.some.inj hadd, Nat.testBit_or, testBit_bit, decide_eq_true rfl, Bool.or_true]
        show (days &&& 1 <<< day != 0) = true
        rw [Nat.one_shiftLeft, Nat.and_two_pow, hset]
        simp
      · unfold parseTimeZone at hzone
        split at hzone
        · next found hfound => exact ⟨_, by rw [hfound, Except.ok.inj hzone]⟩
        · cases hzone
    · cases h
  · cases h

end ActiveWindow

/-! ## Fires -/

section

variable {clock : Clock} {w : ActiveWindow} {trigger : ScheduleTrigger} {hops after floor due : ℕ}

theorem hop_contains (h : hop clock trigger w floor hops after = .ok due) : w.contains clock.cal due = true := by
  induction hops generalizing after with
  | zero => cases h
  | succ hops ih =>
    unfold hop at h
    obtain ⟨candidate, _, h⟩ := bind_eq_ok.mp h
    by_cases hin : w.contains clock.cal candidate = true
    · rw [if_pos hin, Except.ok.injEq] at h
      rwa [← h]
    · rw [if_neg hin] at h
      obtain ⟨opens, _, h⟩ := bind_eq_ok.mp h
      exact ih h

theorem orNeverOpen_eq_ok {opens : Option ℕ} : orNeverOpen opens = .ok due ↔ opens = some due := by
  cases opens with
  | none => simp [orNeverOpen]
  | some o => simp [orNeverOpen]

theorem nextFireAfterFloor_contains (htrigger : (∃ hour minute zone, trigger = .daily hour minute zone) ∨
    ∃ expression zone, trigger = .cron expression zone)
    (h : nextFireAfterFloor clock trigger (some w) after floor = .ok due) : w.contains clock.cal due = true := by
  unfold nextFireAfterFloor at h
  obtain ⟨_, _, h⟩ := bind_eq_ok.mp h
  rcases htrigger with ⟨hour, minute, zone, rfl⟩ | ⟨expression, zone, rfl⟩
  · exact hop_contains h
  · exact hop_contains h

theorem validate_interval {i : ℕ} (hpos : i ≠ 0) (hsecond : i % 1000 = 0) : validateStoredTrigger clock (.interval i) = .ok () := by
  have hvalid : ¬(i = 0 ∨ i % 1000 ≠ 0) := by
    rintro (h | h)
    · exact hpos h
    · exact h hsecond
  show (if i = 0 ∨ i % 1000 ≠ 0 then Except.error _ else Except.ok ()) = _
  rw [if_neg hvalid]

/-- **Active hours are respected iff the gap is clear**: of an accepted window the next opening is not in the past, and it is
inside the window iff it is not moved past its end by a gap of the zone's clock; where the offset is constant it is the least
instant inside the window, and there is one.  An interval's fire is inside iff the gap after its due time is clear, and a daily
or a cron fire is inside always. -/
theorem active_hours_iff (clock : Clock) (hzones : ∀ name zone, clock.zoneOf name = some zone → zone.Lawful clock.cal)
    (hours : ActiveHours) (w : ActiveWindow) (hparse : ActiveWindow.parse clock hours = .ok w) :
    (∀ atMs, (∀ opens, w.nextOpen clock.cal atMs = some opens → atMs ≤ opens ∧ w.contains clock.cal opens = true) ↔
        w.GapClear clock.cal atMs) ∧
    (∀ offset, w.timeZone = Zone.fixed clock.cal offset → -dayMs < offset → offset < dayMs → ∀ atMs : ℕ,
        w.GapClear clock.cal atMs ∧
        (∀ opens, w.nextOpen clock.cal atMs = some opens →
          IsLeast {t | atMs ≤ t ∧ w.contains clock.cal t = true} opens) ∧
        (clock.cal.Has (atMs + 8 * dayMs) → clock.cal.Has (atMs + offset + 8 * dayMs) →
          ∃ opens, w.nextOpen clock.cal atMs = some opens)) ∧
    (∀ i, i ≠ 0 → i % 1000 = 0 → ∀ fromMs raw, rawNext clock (.interval i) fromMs fromMs = .ok raw →
        ((∀ due, nextFireAfter clock (.interval i) (some w) fromMs = .ok due → w.contains clock.cal due = true) ↔
          w.GapClear clock.cal raw)) ∧
    (∀ i, i ≠ 0 → i % 1000 = 0 → ∀ previousDue nowMs raw, stepped i previousDue nowMs = .ok raw →
        ((∀ due, nextFireAfterClaim clock (.interval i) (some w) previousDue nowMs = .ok due →
            w.contains clock.cal due = true) ↔ w.GapClear clock.cal raw)) ∧
    ∀ trigger, ((∃ hour minute zone, trigger = .daily hour minute zone) ∨
        ∃ expression zone, trigger = .cron expression zone) →
      (∀ fromMs due, nextFireAfter clock trigger (some w) fromMs = .ok due → w.contains clock.cal due = true) ∧
      ∀ previousDue nowMs due, nextFireAfterClaim clock trigger (some w) previousDue nowMs = .ok due →
        w.contains clock.cal due = true := by
  obtain ⟨hday, name, hname⟩ := ActiveWindow.parse_eq_ok hparse
  have hzone := hzones name w.timeZone hname
  refine ⟨fun atMs => ?_, fun offset hfixed hlow hhigh atMs => ?_, fun i hpos hsecond fromMs raw hraw => ?_,
    fun i hpos hsecond previousDue nowMs raw hraw => ?_, fun trigger htrigger => ⟨fun fromMs due h => ?_, ?_⟩⟩
  · rw [← ActiveWindow.nextOpen_iff hzone]
    exact ⟨fun h opens hopens => (h opens hopens).2,
      fun h opens hopens => ⟨ActiveWindow.le_of_nextOpen hopens, h opens hopens⟩⟩
  · obtain ⟨hleast, hopen⟩ := @ActiveWindow.nextOpen_fixed clock.cal w atMs offset hfixed hlow hhigh
    exact ⟨(ActiveWindow.nextOpen_iff hzone).mp fun opens h => (hleast opens h).1.2, hleast, hopen hday⟩
  · rw [← ActiveWindow.nextOpen_iff hzone]
    have hfire : nextFireAfter clock (.interval i) (some w) fromMs = orNeverOpen (w.nextOpen clock.cal raw) := by
      unfold nextFireAfter nextFireAfterFloor
      rw [validate_interval hpos hsecond, hraw]
      rfl
    simp only [hfire, orNeverOpen_eq_ok]
  · rw [← ActiveWindow.nextOpen_iff hzone]
    have hfire : nextFireAfterClaim clock (.interval i) (some w) previousDue nowMs =
        orNeverOpen (w.nextOpen clock.cal raw) := by
      unfold nextFireAfterClaim
      rw [validate_interval hpos hsecond]
      show (stepped i previousDue nowMs >>= fun due => orNeverOpen (w.nextOpen clock.cal due)) = _
      rw [hraw]
      rfl
    simp only [hfire, orNeverOpen_eq_ok]
  · exact nextFireAfterFloor_contains htrigger h
  · intro previousDue nowMs due h
    unfold nextFireAfterClaim at h
    obtain ⟨_, _, h⟩ := bind_eq_ok.mp h
    rcases htrigger with ⟨hour, minute, zone, rfl⟩ | ⟨expression, zone, rfl⟩
    · exact nextFireAfterFloor_contains (.inl ⟨hour, minute, zone, rfl⟩) h
    · exact nextFireAfterFloor_contains (.inr ⟨expression, zone, rfl⟩) h

end

/-! ## A window inside a gap -/

namespace Sample

/-- A zone whose clocks go from two to three on the second of January. -/
def springForward : Zone where
  offset := fun instant => if instant < 93600000 then 0 else 3600000
  fromLocal := fun wall =>
    if wall < 93600000 then .single wall else if wall < 97200000 then .none else .single (wall - 3600000)

theorem springForward_lawful : springForward.Lawful gregorian := by
  intro wall hhas instant hinstant
  unfold springForward at hinstant ⊢
  dsimp only at hinstant ⊢
  by_cases hbefore : wall < 93600000
  · rw [if_pos hbefore] at hinstant
    rw [List.mem_singleton.mp hinstant, if_pos hbefore]
    exact ⟨hhas, by omega⟩
  · rw [if_neg hbefore] at hinstant
    by_cases hgap : wall < 97200000
    · rw [if_pos hgap] at hinstant
      cases hinstant
    · rw [if_neg hgap] at hinstant
      rw [List.mem_singleton.mp hinstant, if_neg (by omega)]
      refine ⟨?_, by omega⟩
      unfold Calendar.Has gregorian dayMs minuteMs at *
      dsimp only at *
      omega

def springClock : Clock where
  cal := gregorian
  zoneOf := fun _ => some springForward

def nightHours : ActiveHours := { start := "02:00", finish := "02:30", days := [0, 1, 2, 3, 4, 5, 6], timeZone := "Spring" }

def nightWindow : ActiveWindow := { start := 120, finish := 150, days := 127, timeZone := springForward }

theorem nightHours_parse : ActiveWindow.parse springClock nightHours = .ok nightWindow := by
  rfl

/-- **A window inside a gap opens after its end.** -/
theorem window_in_gap_opens_outside :
    ¬∀ clock : Clock, (∀ name zone, clock.zoneOf name = some zone → zone.Lawful clock.cal ∧
        ∀ instant, |zone.offset (instant + 1) - zone.offset instant| ≤ 3 * 60 * minuteMs) →
      ∀ hours w, ActiveWindow.parse clock hours = .ok w → ∀ atMs opens, w.nextOpen clock.cal atMs = some opens →
        atMs ≤ opens ∧ w.contains clock.cal opens = true := by
  intro h
  have hzones : ∀ name zone, springClock.zoneOf name = some zone → zone.Lawful springClock.cal ∧
      ∀ instant, |zone.offset (instant + 1) - zone.offset instant| ≤ 3 * 60 * minuteMs := by
    rintro name zone hzone
    obtain rfl := Option.some.inj hzone
    refine ⟨springForward_lawful, fun instant => ?_⟩
    unfold springForward minuteMs
    dsimp only
    split_ifs <;> norm_num
  have hopens : nightWindow.nextOpen springClock.cal 90000000 = some 93600000 := by decide +kernel
  have hcontains := (h springClock hzones nightHours nightWindow nightHours_parse 90000000 93600000 hopens).2
  have hnot : nightWindow.contains springClock.cal 93600000 = false := by decide +kernel
  rw [hnot] at hcontains
  cases hcontains

/-- On the other days the window is respected. -/
theorem active_hours_iff_night : nightWindow.GapClear springClock.cal 0 ∧ nightWindow.nextOpen springClock.cal 0 = some 7200000 ∧
    nightWindow.contains springClock.cal 7200000 = true := by
  have hiff := (active_hours_iff springClock (fun name zone hzone => Option.some.inj hzone ▸ springForward_lawful) nightHours
    nightWindow nightHours_parse).1 0
  have hopens : nightWindow.nextOpen springClock.cal 0 = some 7200000 := by decide +kernel
  have hcontains : nightWindow.contains springClock.cal 7200000 = true := by decide +kernel
  refine ⟨hiff.mp fun opens h => ?_, hopens, hcontains⟩
  rw [hopens, Option.some.injEq] at h
  rw [← h]
  exact ⟨Nat.zero_le _, hcontains⟩

end Sample

end AnimaCore.Schedules
