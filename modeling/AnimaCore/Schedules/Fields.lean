import AnimaCore.Schedules.Cron

/-!
# AnimaCore.Schedules.Fields — what the fields of an expression mean

The bits of a field are the values that its items denote.

* `IsValue f token v`, `IsStep token n`: numbers and names.
* `Reads f item first last step`: an item is a star, a value or a range, with or without a step.
* `Denotes f item v`: `v` is one of its values.
-/

namespace AnimaCore.Schedules

open Lib
open Texts (Text splitOnce eqIgnoreAsciiCase)

variable {f : Field} {token item a b : Text} {v n bits bits' : ℕ}

/-! ## Splitting -/

theorem splitOnce_eq_some {c : Char} {text : Text} : splitOnce c text = some (a, b) ↔ text = a ++ c :: b ∧ c ∉ a := by
  unfold splitOnce
  constructor
  · intro h
    by_cases hc : c ∈ text
    · rw [if_pos hc, Option.some.injEq, Prod.mk.injEq] at h
      obtain ⟨rfl, rfl⟩ := h
      have hne : text.dropWhile (· ≠ c) ≠ [] := by
        intro hnil
        rw [List.dropWhile_eq_nil_iff] at hnil
        simpa using hnil c hc
      have hhead : (text.dropWhile (· ≠ c)).head hne = c := by
        have hnot := List.head_dropWhile_not (fun d => decide (d ≠ c)) hne
        simpa using hnot
      refine ⟨?_, fun hmem => ?_⟩
      · have hsplit := List.cons_head_tail hne
        rw [hhead] at hsplit
        rw [hsplit, List.takeWhile_append_dropWhile]
      · have hnot := List.mem_takeWhile_imp hmem
        simp at hnot
    · rw [if_neg hc] at h
      cases h
  · rintro ⟨rfl, hc⟩
    have hne : ∀ d ∈ a, decide (d ≠ c) = true := fun d hd => decide_eq_true fun heq => hc (heq ▸ hd)
    rw [if_pos (by simp), List.takeWhile_append_of_pos hne, List.dropWhile_append_of_pos hne]
    simp

theorem splitOnce_eq_none {c : Char} {text : Text} : splitOnce c text = none ↔ c ∉ text := by
  unfold splitOnce
  split_ifs with h
  · simp [h]
  · simp [h]

/-! ## Bits -/

theorem bit_eq_ok (h : v < 64) : bit v = .ok (1 <<< v) := by
  unfold bit
  rw [if_pos h]

theorem testBit_bit : (1 <<< v : ℕ).testBit x = decide (v = x) := by
  rw [Nat.one_shiftLeft, Nat.testBit_two_pow]

theorem bitSet_eq_ok (h : v < 64) : bitSet bits v = .ok (bits.testBit v) := by
  have hmask : (bits &&& 1 <<< v != 0) = bits.testBit v := by
    rw [Nat.one_shiftLeft, Nat.and_two_pow]
    cases bits.testBit v with
    | false => simp
    | true => simp
  unfold bitSet
  rw [bit_eq_ok h]
  show Except.ok _ = _
  rw [hmask]

theorem setFrom_eq_ok {last step rounds : ℕ} (hlast : last < 64) (hstep : 1 ≤ step) (hrounds : last + 1 - v ≤ rounds) :
    ∃ bits', Field.setFrom last step rounds v bits = .ok bits' ∧
      ∀ x, bits'.testBit x = true ↔ bits.testBit x = true ∨ (v ≤ x ∧ x ≤ last ∧ step ∣ x - v) := by
  induction rounds generalizing v bits with
  | zero =>
    refine ⟨bits, rfl, fun x => ⟨.inl, fun h => ?_⟩⟩
    rcases h with h | ⟨h1, h2, _⟩
    · exact h
    · omega
  | succ rounds ih =>
    unfold Field.setFrom
    by_cases hle : v ≤ last
    · rw [if_pos hle, bit_eq_ok (by omega)]
      show ∃ bits', (if v + step < 2 ^ 32 then Field.setFrom last step rounds (v + step) (bits ||| 1 <<< v)
        else .ok (bits ||| 1 <<< v)) = .ok bits' ∧ _
      have hone : ∀ x, (bits ||| 1 <<< v).testBit x = true ↔ bits.testBit x = true ∨ v = x := by
        intro x
        rw [Nat.testBit_or, Bool.or_eq_true, testBit_bit, decide_eq_true_eq]
      -- past its first value a progression is one from the next value
      have hnext : ∀ x, (v ≤ x ∧ x ≤ last ∧ step ∣ x - v) ↔ (v = x ∨ (v + step ≤ x ∧ x ≤ last ∧ step ∣ x - (v + step))) := by
        intro x
        constructor
        · rintro ⟨h1, h2, k, hk⟩
          cases k with
          | zero => exact .inl (by omega)
          | succ k =>
            rw [Nat.mul_succ] at hk
            refine .inr ⟨by omega, h2, k, by omega⟩
        · rintro (rfl | ⟨h1, h2, k, hk⟩)
          · exact ⟨le_refl _, hle, by simp⟩
          · refine ⟨by omega, h2, k + 1, ?_⟩
            rw [Nat.mul_succ]
            omega
      by_cases hsmall : v + step < 2 ^ 32
      · rw [if_pos hsmall]
        obtain ⟨bits', hok, hbits⟩ := @ih (v + step) (bits ||| 1 <<< v) (by omega)
        refine ⟨bits', hok, fun x => ?_⟩
        rw [hbits, hone, hnext, or_assoc]
      · rw [if_neg hsmall]
        refine ⟨_, rfl, fun x => ?_⟩
        rw [hone, hnext]
        refine or_congr_right ⟨.inl, fun h => ?_⟩
        rcases h with h | ⟨h1, h2, _⟩
        · exact h
        · omega
    · rw [if_neg hle]
      refine ⟨bits, rfl, fun x => ⟨.inl, fun h => ?_⟩⟩
      rcases h with h | ⟨h1, h2, _⟩
      · exact h
      · omega

/-! ## Values -/

/-- A number of the field, or one of its names in any case. -/
def IsValue (f : Field) (token : Text) (v : ℕ) : Prop :=
  (isWholeNumber token = true ∧ numberOf token = v ∧ f.min ≤ v ∧ v ≤ f.max) ∨
    ∃ (i : ℕ) (name : String), f.names[i]? = some name ∧ eqIgnoreAsciiCase name.toList token = true ∧ v = f.nameBase + i

def IsStep (token : Text) (n : ℕ) : Prop := isWholeNumber token = true ∧ numberOf token = n ∧ 1 ≤ n ∧ n < 2 ^ 32

/-- What is true of the five fields: their values are bits of a word, and their names are words that name different values of
the field. -/
structure Field.Lawful (f : Field) : Prop where
  max_lt : f.max < 64
  names_le : f.nameBase + f.names.length ≤ f.max + 1
  letters : ∀ name ∈ f.names, name.toList ≠ [] ∧ ∀ c ∈ name.toList.map Char.toLower, c.isLower = true
  distinct : (f.names.map fun name => name.toList.map Char.toLower).Nodup

theorem lawful_minute : minuteField.Lawful := ⟨by decide, by decide, by decide, by decide⟩

theorem lawful_hour : hourField.Lawful := ⟨by decide, by decide, by decide, by decide⟩

theorem lawful_dayOfMonth : dayOfMonthField.Lawful := ⟨by decide, by decide, by decide, by decide⟩

theorem lawful_month : monthField.Lawful := ⟨by decide, by decide, by simp [monthField], by decide +kernel⟩

theorem lawful_dayOfWeek : dayOfWeekField.Lawful := ⟨by decide, by decide, by simp [dayOfWeekField], by decide +kernel⟩

theorem not_isDigit_of_lower {c : Char} (h : c.toLower.isLower = true) : c.isDigit = false := by
  by_contra hdigit
  rw [Bool.not_eq_false] at hdigit
  have hle : c.val.toNat ≤ 57 := by
    simp only [Char.isDigit, Bool.and_eq_true, decide_eq_true_eq, UInt32.le_iff_toNat_le] at hdigit
    exact hdigit.2
  have hsame : c.toLower = c := by
    unfold Char.toLower
    rw [dif_neg]
    rintro ⟨hge, _⟩
    have h65 : 65 ≤ c.val.toNat := UInt32.le_iff_toNat_le.mp hge
    omega
  rw [hsame] at h
  have hge : 97 ≤ c.val.toNat := by
    simp only [Char.isLower, Bool.and_eq_true, decide_eq_true_eq, ge_iff_le, UInt32.le_iff_toNat_le] at h
    exact h.1
  omega

namespace Field

variable (hf : f.Lawful)
include hf

theorem Lawful.value_le (h : IsValue f token v) : v ≤ f.max := by
  rcases h with ⟨_, _, _, hmax⟩ | ⟨i, name, hname, _, rfl⟩
  · exact hmax
  · have hi : i < f.names.length := (List.getElem?_eq_some_iff.mp hname).1
    have hle := hf.names_le
    omega

theorem Lawful.lower {i : ℕ} {name : String} (hname : f.names[i]? = some name)
    (hcase : eqIgnoreAsciiCase name.toList token = true) :
    name.toList.map Char.toLower = token.map Char.toLower ∧ token ≠ [] ∧ ∀ c ∈ token, c.toLower.isLower = true := by
  obtain ⟨hne, hletters⟩ := hf.letters name (List.mem_of_getElem? hname)
  have hmap : name.toList.map Char.toLower = token.map Char.toLower := by
    unfold eqIgnoreAsciiCase at hcase
    exact eq_of_beq hcase
  rw [hmap] at hletters
  refine ⟨hmap, ?_, fun c hc => hletters _ (List.mem_map_of_mem hc)⟩
  rintro rfl
  rw [List.map_nil, List.map_eq_nil_iff] at hmap
  exact hne hmap

theorem Lawful.plain (h : IsValue f token v) : token ≠ [] ∧ '*' ∉ token ∧ '-' ∉ token ∧ '/' ∉ token := by
  rcases h with ⟨hwhole, _⟩ | ⟨i, name, hname, hcase, rfl⟩
  · unfold isWholeNumber at hwhole
    simp only [Bool.and_eq_true, Bool.not_eq_true', List.isEmpty_eq_false_iff, List.all_eq_true] at hwhole
    obtain ⟨hne, hdigits⟩ := hwhole
    exact ⟨hne, fun hc => absurd (hdigits _ hc) (by decide), fun hc => absurd (hdigits _ hc) (by decide),
      fun hc => absurd (hdigits _ hc) (by decide)⟩
  · obtain ⟨_, hne, hlower⟩ := hf.lower hname hcase
    exact ⟨hne, fun hc => absurd (hlower _ hc) (by decide), fun hc => absurd (hlower _ hc) (by decide),
      fun hc => absurd (hlower _ hc) (by decide)⟩

theorem Lawful.value_eq_ok : f.value token = .ok v ↔ IsValue f token v := by
  constructor
  · intro h
    unfold Field.value at h
    split_ifs at h with hnil hwhole
    · cases hparsed : (parseU32 token).filter fun value => decide (f.min ≤ value ∧ value ≤ f.max) with
      | none =>
        rw [hparsed] at h
        cases h
      | some value =>
        rw [hparsed, Except.ok.injEq] at h
        subst h
        obtain ⟨hvalue, hrange⟩ := Option.filter_eq_some_iff.mp hparsed
        rw [decide_eq_true_eq] at hrange
        unfold parseU32 at hvalue
        split_ifs at hvalue
        exact .inl ⟨hwhole, Option.some.inj hvalue, hrange.1, hrange.2⟩
    · cases hfound : f.names.findIdx? fun name => eqIgnoreAsciiCase name.toList token with
      | none =>
        rw [hfound] at h
        dsimp only at h
        split_ifs at h
      | some i =>
        rw [hfound, Except.ok.injEq] at h
        subst h
        obtain ⟨hi, hcase, _⟩ := List.findIdx?_eq_some_iff_getElem.mp hfound
        exact .inr ⟨i, f.names[i], List.getElem?_eq_getElem hi, hcase, rfl⟩
  · intro h
    have hne := (hf.plain h).1
    have hmax := hf.value_le h
    unfold Field.value
    rw [if_neg hne]
    rcases h with ⟨hwhole, rfl, hmin, _⟩ | ⟨i, name, hname, hcase, rfl⟩
    · have hsmall : numberOf token < 2 ^ 32 := by
        have hlt := hf.max_lt
        omega
      have hparsed : (parseU32 token).filter (fun value => decide (f.min ≤ value ∧ value ≤ f.max)) =
          some (numberOf token) := by
        unfold parseU32
        rw [if_pos hsmall, Option.filter_some, if_pos (decide_eq_true ⟨hmin, hmax⟩)]
      rw [if_pos hwhole, hparsed]
    · obtain ⟨hmap, _, hlower⟩ := hf.lower hname hcase
      have hwhole : isWholeNumber token = false := by
        obtain ⟨c, rest, rfl⟩ := List.exists_cons_of_ne_nil hne
        unfold isWholeNumber
        rw [List.all_cons, not_isDigit_of_lower (hlower c List.mem_cons_self), Bool.false_and, Bool.and_false]
      have hfound : (f.names.findIdx? fun name => eqIgnoreAsciiCase name.toList token) = some i := by
        obtain ⟨hi, rfl⟩ := List.getElem?_eq_some_iff.mp hname
        refine List.findIdx?_eq_some_iff_getElem.mpr ⟨hi, hcase, fun j hj hcase' => ?_⟩
        have hmap' := (hf.lower (List.getElem?_eq_getElem (hj.trans hi)) hcase').1
        have hj' : j < (f.names.map fun name => name.toList.map Char.toLower).length := by simpa using hj.trans hi
        have hi' : i < (f.names.map fun name => name.toList.map Char.toLower).length := by simpa using hi
        have hsame := @List.Nodup.getElem_inj_iff _ _ hf.distinct j hj' i hi'
        rw [List.getElem_map, List.getElem_map] at hsame
        have hji := hsame.mp (hmap'.trans hmap.symm)
        omega
      rw [if_neg (by rw [hwhole]; decide), hfound]

omit hf in
theorem step_eq_ok : f.step token = .ok n ↔ IsStep token n := by
  unfold Field.step IsStep
  by_cases hwhole : isWholeNumber token = true
  · rw [if_pos hwhole]
    unfold parseU32
    by_cases hsmall : numberOf token < 2 ^ 32
    · rw [if_pos hsmall, Option.filter_some]
      by_cases hone : 1 ≤ numberOf token
      · rw [if_pos (decide_eq_true hone)]
        simp only [Except.ok.injEq]
        constructor
        · rintro rfl
          exact ⟨hwhole, rfl, hone, hsmall⟩
        · exact fun h => h.2.1
      · rw [if_neg (by simpa using hone)]
        simp only [reduceCtorEq, false_iff]
        rintro ⟨_, rfl, hge, _⟩
        exact hone hge
    · rw [if_neg hsmall, Option.filter_none]
      simp only [reduceCtorEq, false_iff]
      rintro ⟨_, rfl, _, hlt⟩
      exact hsmall hlt
  · rw [if_neg hwhole, Option.filter_none]
    simp only [reduceCtorEq, false_iff]
    exact fun h => hwhole h.1

end Field

/-! ## Items -/

/-- An item: a star, a value or a range, with or without a step.  With a step a value goes on to the end of the field. -/
inductive Reads (f : Field) : Text → ℕ → ℕ → ℕ → Prop
  | any : Reads f ['*'] f.min f.max 1
  | one {low : Text} {x : ℕ} (ha : IsValue f low x) : Reads f low x x 1
  | range {low high : Text} {x y : ℕ} (ha : IsValue f low x) (hb : IsValue f high y) (hle : x ≤ y) :
      Reads f (low ++ '-' :: high) x y 1
  | anyStep {stepText : Text} {k : ℕ} (hs : IsStep stepText k) : Reads f ('*' :: '/' :: stepText) f.min f.max k
  | oneStep {low stepText : Text} {x k : ℕ} (ha : IsValue f low x) (hs : IsStep stepText k) :
      Reads f (low ++ '/' :: stepText) x f.max k
  | rangeStep {low high stepText : Text} {x y k : ℕ} (ha : IsValue f low x) (hb : IsValue f high y) (hle : x ≤ y)
      (hs : IsStep stepText k) : Reads f (low ++ '-' :: high ++ '/' :: stepText) x y k

def Denotes (f : Field) (item : Text) (v : ℕ) : Prop :=
  ∃ first last step, Reads f item first last step ∧ first ≤ v ∧ v ≤ last ∧ step ∣ v - first

namespace Field

variable {step : Option ℕ} {first last : ℕ}

variable (hf : f.Lawful)
include hf

theorem Lawful.bounds_eq_ok : f.bounds item step = .ok (first, last) ↔
    (item = ['*'] ∧ first = f.min ∧ last = f.max) ∨
      (∃ a b, item = a ++ '-' :: b ∧ IsValue f a first ∧ IsValue f b last ∧ first ≤ last) ∨
      (IsValue f item first ∧ last = if step.isSome then f.max else first) := by
  unfold Field.bounds
  by_cases hstar : item = ['*']
  · rw [if_pos hstar]
    subst hstar
    rw [Except.ok.injEq, Prod.mk.injEq]
    constructor
    · rintro ⟨rfl, rfl⟩
      exact .inl ⟨rfl, rfl, rfl⟩
    · rintro (⟨_, rfl, rfl⟩ | ⟨a, b, heq, ha, _⟩ | ⟨hvalue, _⟩)
      · exact ⟨rfl, rfl⟩
      · cases a with
        | nil => exact absurd rfl (hf.plain ha).1
        | cons c rest =>
          rw [List.cons_append, List.cons.injEq] at heq
          exact absurd (heq.1 ▸ List.mem_cons_self) (hf.plain ha).2.1
      · exact absurd List.mem_cons_self (hf.plain hvalue).2.1
  · rw [if_neg hstar]
    cases hsplit : splitOnce '-' item with
    | some parts =>
      obtain ⟨a, b⟩ := parts
      obtain ⟨rfl, hdash⟩ := splitOnce_eq_some.mp hsplit
      dsimp only
      simp only [bind_eq_ok, hf.value_eq_ok]
      constructor
      · rintro ⟨low, hlow, high, hhigh, h⟩
        by_cases hlt : high < low
        · rw [if_pos hlt] at h
          cases h
        · rw [if_neg hlt, Except.ok.injEq, Prod.mk.injEq] at h
          obtain ⟨rfl, rfl⟩ := h
          exact .inr (.inl ⟨a, b, rfl, hlow, hhigh, by omega⟩)
      · rintro (⟨heq, _⟩ | ⟨a', b', heq, ha, hb, hle⟩ | ⟨hvalue, _⟩)
        · exact absurd heq hstar
        · have hsame : splitOnce '-' (a' ++ '-' :: b') = some (a', b') :=
            splitOnce_eq_some.mpr ⟨rfl, (hf.plain ha).2.2.1⟩
          rw [← heq, hsplit, Option.some.injEq, Prod.mk.injEq] at hsame
          obtain ⟨rfl, rfl⟩ := hsame
          refine ⟨first, ha, last, hb, ?_⟩
          rw [if_neg (by omega)]
        · exact absurd (by simp) (hf.plain hvalue).2.2.1
    | none =>
      have hdash := splitOnce_eq_none.mp hsplit
      dsimp only
      simp only [bind_eq_ok, hf.value_eq_ok, Except.ok.injEq, Prod.mk.injEq]
      constructor
      · rintro ⟨value, hvalue, rfl, rfl⟩
        exact .inr (.inr ⟨hvalue, rfl⟩)
      · rintro (⟨heq, _⟩ | ⟨a, b, rfl, _⟩ | ⟨hvalue, rfl⟩)
        · exact absurd heq hstar
        · exact absurd (by simp) hdash
        · exact ⟨first, hvalue, rfl, rfl⟩

theorem Lawful.reads_iff {n : ℕ} : Reads f item first last n ↔
    ∃ range step, f.range item = .ok (range, step) ∧ f.bounds range step = .ok (first, last) ∧ n = step.getD 1 := by
  have hrange : ∀ {a s : Text}, '/' ∉ a → IsStep s n → f.range (a ++ '/' :: s) = .ok (a, some n) := by
    intro a s ha hs
    unfold Field.range
    rw [splitOnce_eq_some.mpr ⟨rfl, ha⟩]
    dsimp only
    rw [step_eq_ok.mpr hs]
    rfl
  have hplain : ∀ {a : Text}, '/' ∉ a → f.range a = .ok (a, none) := by
    intro a ha
    unfold Field.range
    rw [splitOnce_eq_none.mpr ha]
  have hdashed : ∀ {a b : Text} {x y : ℕ}, IsValue f a x → IsValue f b y → '/' ∉ a ++ '-' :: b := by
    intro a b x y ha hb hmem
    rcases List.mem_append.mp hmem with h | h
    · exact (hf.plain ha).2.2.2 h
    · rcases List.mem_cons.mp h with h | h
      · cases h
      · exact (hf.plain hb).2.2.2 h
  constructor
  · intro h
    cases h with
    | any => exact ⟨_, _, hplain (by decide), hf.bounds_eq_ok.mpr (.inl ⟨rfl, rfl, rfl⟩), rfl⟩
    | one ha => exact ⟨_, _, hplain (hf.plain ha).2.2.2, hf.bounds_eq_ok.mpr (.inr (.inr ⟨ha, rfl⟩)), rfl⟩
    | range ha hb hle =>
      exact ⟨_, _, hplain (hdashed ha hb), hf.bounds_eq_ok.mpr (.inr (.inl ⟨_, _, rfl, ha, hb, hle⟩)), rfl⟩
    | anyStep hs => exact ⟨_, _, hrange (a := ['*']) (by decide) hs, hf.bounds_eq_ok.mpr (.inl ⟨rfl, rfl, rfl⟩), rfl⟩
    | oneStep ha hs =>
      exact ⟨_, _, hrange (hf.plain ha).2.2.2 hs, hf.bounds_eq_ok.mpr (.inr (.inr ⟨ha, rfl⟩)), rfl⟩
    | rangeStep ha hb hle hs =>
      exact ⟨_, _, hrange (hdashed ha hb) hs, hf.bounds_eq_ok.mpr (.inr (.inl ⟨_, _, rfl, ha, hb, hle⟩)), rfl⟩
  · rintro ⟨range, step, hr, hb, rfl⟩
    unfold Field.range at hr
    cases hsplit : splitOnce '/' item with
    | none =>
      rw [hsplit, Except.ok.injEq, Prod.mk.injEq] at hr
      obtain ⟨rfl, rfl⟩ := hr
      rcases hf.bounds_eq_ok.mp hb with ⟨rfl, rfl, rfl⟩ | ⟨a, b, rfl, ha, hb, hle⟩ | ⟨ha, rfl⟩
      · exact .any
      · exact .range ha hb hle
      · exact .one ha
    | some parts =>
      obtain ⟨a, s⟩ := parts
      obtain ⟨rfl, _⟩ := splitOnce_eq_some.mp hsplit
      rw [hsplit] at hr
      dsimp only at hr
      obtain ⟨k, hk, hpure⟩ := bind_eq_ok.mp hr
      have heq : (a, some k) = (range, step) := Except.ok.inj hpure
      rw [Prod.mk.injEq] at heq
      obtain ⟨rfl, rfl⟩ := heq
      rcases hf.bounds_eq_ok.mp hb with ⟨rfl, rfl, rfl⟩ | ⟨a, b, rfl, ha, hb, hle⟩ | ⟨ha, rfl⟩
      · exact .anyStep (step_eq_ok.mp hk)
      · exact .rangeStep ha hb hle (step_eq_ok.mp hk)
      · exact .oneStep ha (step_eq_ok.mp hk)

theorem Lawful.last_le {n : ℕ} (h : Reads f item first last n) : last ≤ f.max ∧ 1 ≤ n := by
  cases h with
  | any => exact ⟨le_refl _, le_refl _⟩
  | one ha => exact ⟨hf.value_le ha, le_refl _⟩
  | range ha hb hle => exact ⟨hf.value_le hb, le_refl _⟩
  | anyStep hs => exact ⟨le_refl _, hs.2.2.1⟩
  | oneStep ha hs => exact ⟨le_refl _, hs.2.2.1⟩
  | rangeStep ha hb hle hs => exact ⟨hf.value_le hb, hs.2.2.1⟩

theorem Lawful.addItem_eq_ok (h : f.addItem bits item = .ok bits') :
    (∃ first last n, Reads f item first last n) ∧
      ∀ v, bits'.testBit v = true ↔ bits.testBit v = true ∨ Denotes f item v := by
  unfold Field.addItem at h
  by_cases hnil : item = []
  · rw [if_pos hnil] at h
    cases h
  · rw [if_neg hnil] at h
    obtain ⟨⟨range, step⟩, hr, h⟩ := bind_eq_ok.mp h
    obtain ⟨⟨first, last⟩, hb, h⟩ := bind_eq_ok.mp h
    dsimp only at h
    have hreads : Reads f item first last (step.getD 1) := hf.reads_iff.mpr ⟨range, step, hr, hb, rfl⟩
    obtain ⟨hlast, hstep⟩ := hf.last_le hreads
    obtain ⟨set, hset, hbits⟩ := @setFrom_eq_ok first bits last (step.getD 1) _
      (lt_of_le_of_lt hlast hf.max_lt) hstep (le_refl (last + 1 - first))
    rw [hset, Except.ok.injEq] at h
    subst h
    refine ⟨⟨first, last, _, hreads⟩, fun v => ?_⟩
    rw [hbits]
    refine or_congr_right ⟨fun h => ⟨first, last, _, hreads, h⟩, ?_⟩
    -- an item reads in one way
    rintro ⟨first', last', n', hreads', h⟩
    obtain ⟨range', step', hr', hb', rfl⟩ := hf.reads_iff.mp hreads'
    rw [hr, Except.ok.injEq, Prod.mk.injEq] at hr'
    obtain ⟨rfl, rfl⟩ := hr'
    rw [hb, Except.ok.injEq, Prod.mk.injEq] at hb'
    obtain ⟨rfl, rfl⟩ := hb'
    exact h

omit hf in
theorem value_ne_shift : f.value token ≠ .error .shift := by
  unfold Field.value Field.error
  split_ifs
  · simp
  · split <;> simp
  · split
    · simp
    · dsimp only
      split_ifs <;> simp

theorem Lawful.addItem_ne_shift : f.addItem bits item ≠ .error .shift := by
  unfold Field.addItem
  by_cases hnil : item = []
  · rw [if_pos hnil]
    simp [Field.error]
  · rw [if_neg hnil]
    refine bind_ne_error ?_ fun p hr => bind_ne_error ?_ fun q hb => ?_
    · unfold Field.range
      split
      · refine bind_ne_error ?_ fun k _ => by simp [pure, Except.pure]
        unfold Field.step Field.error
        split <;> simp
      · simp
    · unfold Field.bounds
      by_cases hstar : p.1 = ['*']
      · rw [if_pos hstar]
        simp
      · rw [if_neg hstar]
        split
        · refine bind_ne_error value_ne_shift fun low _ => bind_ne_error value_ne_shift fun high _ => ?_
          split_ifs <;> simp [Field.error]
        · exact bind_ne_error value_ne_shift fun value _ => by simp
    · obtain ⟨range, step⟩ := p
      obtain ⟨first, last⟩ := q
      have hreads : Reads f item first last (step.getD 1) := hf.reads_iff.mpr ⟨range, step, hr, hb, rfl⟩
      obtain ⟨hlast, hstep⟩ := hf.last_le hreads
      obtain ⟨set, hset, _⟩ := @setFrom_eq_ok first bits last (step.getD 1) _
        (lt_of_le_of_lt hlast hf.max_lt) hstep (le_refl (last + 1 - first))
      dsimp only
      rw [hset]
      simp

theorem Lawful.parse_eq_ok {text : Text} (h : f.parse text = .ok bits) :
    (∀ item ∈ text.splitOn ',', ∃ first last n, Reads f item first last n) ∧
      ∀ v, bits.testBit v = true ↔ ∃ item ∈ text.splitOn ',', Denotes f item v := by
  unfold Field.parse at h
  refine foldlM_induction (P := fun items bits => (∀ item ∈ items, ∃ first last n, Reads f item first last n) ∧
    ∀ v, bits.testBit v = true ↔ ∃ item ∈ items, Denotes f item v) h ?_ ?_
  · exact ⟨by simp, fun v => by simp⟩
  · rintro items item _ bits bits' _ ⟨hreads, hbits⟩ hadd
    obtain ⟨hitem, hadded⟩ := hf.addItem_eq_ok hadd
    refine ⟨fun other hother => ?_, fun v => ?_⟩
    · rcases List.mem_append.mp hother with hother | hother
      · exact hreads other hother
      · rw [List.mem_singleton.mp hother]
        exact hitem
    · rw [hadded, hbits]
      simp only [List.mem_append, List.mem_singleton, or_and_right, exists_or, exists_eq_left]

theorem Lawful.parse_ne_shift (text : Text) : f.parse text ≠ .error .shift :=
  foldlM_ne_error (fun _ _ => hf.addItem_ne_shift) _ _

end Field

end AnimaCore.Schedules
