import AnimaCore.Lib.Gregorian
import AnimaCore.Lib.TopK
import AnimaCore.Usage.RunRows
import AnimaCore.Usage.Summary

/-!
# AnimaCore.Usage.ExactSums — what a summary sums

* `Counter`, `weight`: the nine sums at once and what a row adds to each.  `get_sums`: a fold of rows is their capped
  sum.
* `Grouping`: the groups partition the rows.  `grouping_summary`: those of a scan do; `Grouping.addUp`.
-/

namespace AnimaCore.Usage

open Lib RunDelta

/-! ## Sums -/

/-- The sums of `UsageTotals`. -/
inductive Counter
  | calls
  | tokens (field : TokenField)
  | costMicros
  | unpricedCalls
  | subscriptionCalls
  deriving DecidableEq

def UsageTotals.get (totals : UsageTotals) : Counter → ℕ
  | .calls => totals.calls
  | .tokens field => count field totals.tokens
  | .costMicros => totals.costMicros
  | .unpricedCalls => totals.unpricedCalls
  | .subscriptionCalls => totals.subscriptionCalls

/-- What a row adds to a sum: the cost of a priced call only, and an unpriced call is a subscription call or is not. -/
def weight (c : Counter) (record : UsageRecord) : ℕ :=
  match c with
  | .calls => 1
  | .tokens field => count field record.tokens
  | .costMicros => record.costMicros.getD 0
  | .unpricedCalls => if record.costMicros = none ∧ record.pricingSource ≠ .subscription then 1 else 0
  | .subscriptionCalls => if record.costMicros = none ∧ record.pricingSource = .subscription then 1 else 0

def total (c : Counter) (rows : List UsageRecord) : ℕ := (rows.map (weight c)).sum

/-- A `u64` that does not go on. -/
def capped (n : ℕ) : ℕ := min n (2 ^ 64 - 1)

theorem capped_of_lt {n : ℕ} (h : n < 2 ^ 64) : capped n = n := by
  unfold capped
  omega

theorem capped_add (a b : ℕ) : capped (capped a + b) = capped (a + b) := by
  unfold capped
  omega

theorem total_cons (c : Counter) (record : UsageRecord) (rows : List UsageRecord) :
    total c (record :: rows) = weight c record + total c rows := by
  unfold total
  rw [List.map_cons, List.sum_cons]

theorem get_default (c : Counter) : ({} : UsageTotals).get c = 0 := by
  rcases c with _ | field | _ | _ | _
  · rfl
  · exact count_default
  · rfl
  · rfl
  · rfl

theorem add_cases (totals : UsageTotals) (record : UsageRecord) :
    (∃ cost, record.costMicros = some cost ∧ totals.add record =
      ⟨saturatingSum totals.calls 1, addUsage totals.tokens record.tokens, saturatingSum totals.costMicros cost,
        totals.unpricedCalls, totals.subscriptionCalls⟩) ∨
    (record.costMicros = none ∧ record.pricingSource = .subscription ∧ totals.add record =
      ⟨saturatingSum totals.calls 1, addUsage totals.tokens record.tokens, totals.costMicros, totals.unpricedCalls,
        saturatingSum totals.subscriptionCalls 1⟩) ∨
    (record.costMicros = none ∧ record.pricingSource ≠ .subscription ∧ totals.add record =
      ⟨saturatingSum totals.calls 1, addUsage totals.tokens record.tokens, totals.costMicros,
        saturatingSum totals.unpricedCalls 1, totals.subscriptionCalls⟩) := by
  unfold UsageTotals.add
  rcases record.costMicros with _ | cost
  · by_cases hsub : record.pricingSource = .subscription
    · exact Or.inr (Or.inl ⟨rfl, hsub, by dsimp only; rw [if_pos hsub]⟩)
    · exact Or.inr (Or.inr ⟨rfl, hsub, by dsimp only; rw [if_neg hsub]⟩)
  · exact Or.inl ⟨cost, rfl, rfl⟩

theorem get_add {totals : UsageTotals} (record : UsageRecord) (c : Counter) (hc : totals.get c ≤ 2 ^ 64 - 1) :
    (totals.add record).get c = capped (totals.get c + weight c record) := by
  have hkeep : ∀ w, w = 0 → totals.get c = capped (totals.get c + w) := by
    rintro w rfl
    unfold capped
    omega
  unfold weight
  rcases add_cases totals record with ⟨cost, hcost, heq⟩ | ⟨hcost, hsub, heq⟩ | ⟨hcost, hsub, heq⟩
  · rw [heq, hcost]
    rcases c with _ | field | _ | _ | _
    · rfl
    · exact count_addUsage
    · rfl
    · exact hkeep _ (if_neg fun h => by cases h.1)
    · exact hkeep _ (if_neg fun h => by cases h.1)
  · rw [heq, hcost]
    rcases c with _ | field | _ | _ | _
    · rfl
    · exact count_addUsage
    · exact hkeep _ rfl
    · exact hkeep _ (if_neg fun h => h.2 hsub)
    · dsimp only
      rw [if_pos ⟨rfl, hsub⟩]
      rfl
  · rw [heq, hcost]
    rcases c with _ | field | _ | _ | _
    · rfl
    · exact count_addUsage
    · exact hkeep _ rfl
    · dsimp only
      rw [if_pos ⟨rfl, hsub⟩]
      rfl
    · exact hkeep _ (if_neg fun h => hsub h.2)

def sums (rows : List UsageRecord) : UsageTotals := rows.foldl UsageTotals.add {}

theorem get_sums (c : Counter) (rows : List UsageRecord) : (sums rows).get c = capped (total c rows) := by
  have hfold : ∀ totals : UsageTotals, totals.get c ≤ 2 ^ 64 - 1 →
      (rows.foldl UsageTotals.add totals).get c = capped (totals.get c + total c rows) := by
    induction rows with
    | nil =>
      intro totals hle
      show totals.get c = capped (totals.get c + 0)
      unfold capped
      omega
    | cons record rows ih =>
      intro totals hle
      have hnext := get_add record c hle
      have hle' : (totals.add record).get c ≤ 2 ^ 64 - 1 := by
        rw [hnext]
        exact Nat.min_le_right _ _
      rw [List.foldl_cons, ih _ hle', hnext, capped_add, total_cons, Nat.add_assoc]
  have hzero := get_default c
  have heq := hfold {} (by rw [hzero]; exact Nat.zero_le _)
  rw [hzero, Nat.zero_add] at heq
  exact heq

/-! ## Groups -/

section

variable {groupBy : GroupBy} {tz : ℤ} {rows : List UsageRecord}

def rowsOf (groupBy : GroupBy) (tz : ℤ) (key : String) (rows : List UsageRecord) : List UsageRecord :=
  rows.filter fun record => groupKey record groupBy tz = key

structure Grouping (groupBy : GroupBy) (tz : ℤ) (rows : List UsageRecord) (groups : List (String × UsageTotals)) :
    Prop where
  distinct : (groups.map Prod.fst).Nodup
  keys : ∀ key, key ∈ groups.map Prod.fst ↔ ∃ record ∈ rows, groupKey record groupBy tz = key
  totals : ∀ e ∈ groups, ∀ c, e.2.get c = capped (total c (rowsOf groupBy tz e.1 rows))

theorem sum_single (w : ℕ) {k : String} {keys : List String} (hnd : keys.Nodup) (hk : k ∈ keys) :
    (keys.map fun key => if key = k then w else 0).sum = w := by
  induction keys with
  | nil => exact absurd hk List.not_mem_nil
  | cons key keys ih =>
    obtain ⟨hnew, hnd⟩ := List.nodup_cons.mp hnd
    rw [List.map_cons, List.sum_cons]
    by_cases hkey : key = k
    · have hrest : (keys.map fun key => if key = k then w else 0) = keys.map fun _ => 0 := by
        refine List.map_congr_left fun other hother => if_neg ?_
        rintro rfl
        exact hnew (hkey ▸ hother)
      rw [if_pos hkey, hrest, List.map_const', List.sum_replicate, smul_zero, Nat.add_zero]
    · rw [if_neg hkey, Nat.zero_add]
      exact ih hnd ((List.mem_cons.mp hk).resolve_left fun h => hkey h.symm)

theorem sum_rowsOf (c : Counter) {keys : List String} (hnd : keys.Nodup)
    (hkeys : ∀ record ∈ rows, groupKey record groupBy tz ∈ keys) :
    (keys.map fun key => total c (rowsOf groupBy tz key rows)).sum = total c rows := by
  induction rows with
  | nil =>
    show (keys.map fun _ => 0).sum = 0
    rw [List.map_const', List.sum_replicate, smul_zero]
  | cons record rows ih =>
    obtain ⟨hrecord, hrest⟩ := List.forall_mem_cons.mp hkeys
    have hstep : ∀ key, total c (rowsOf groupBy tz key (record :: rows)) =
        (if key = groupKey record groupBy tz then weight c record else 0) + total c (rowsOf groupBy tz key rows) := by
      intro key
      unfold rowsOf
      by_cases hkey : groupKey record groupBy tz = key
      · rw [List.filter_cons, if_pos (decide_eq_true hkey), total_cons, if_pos hkey.symm]
      · rw [List.filter_cons, if_neg (by rw [decide_eq_true_eq]; exact hkey), if_neg fun h => hkey h.symm, Nat.zero_add]
    rw [total_cons, ← ih hrest, ← sum_single (weight c record) hnd hrecord, ← List.sum_map_add]
    exact congrArg List.sum (List.map_congr_left fun key _ => hstep key)

theorem Grouping.addUp {groups : List (String × UsageTotals)} (h : Grouping groupBy tz rows groups) {c : Counter}
    (hlt : total c rows < 2 ^ 64) : (groups.map fun e => e.2.get c).sum = (sums rows).get c := by
  have hparts := @sum_rowsOf groupBy tz rows c _ h.distinct fun record hrecord => (h.keys _).mpr ⟨record, hrecord, rfl⟩
  rw [get_sums, capped_of_lt hlt, ← hparts, List.map_map]
  refine congrArg List.sum (List.map_congr_left fun e he => ?_)
  rw [h.totals e he]
  refine capped_of_lt (lt_of_le_of_lt ?_ hlt)
  rw [← hparts]
  exact List.single_le_sum (fun _ _ => Nat.zero_le _) _ (List.mem_map_of_mem (List.mem_map_of_mem he))

theorem Grouping.perm {groups groups' : List (String × UsageTotals)} (h : Grouping groupBy tz rows groups)
    (hp : groups'.Perm groups) : Grouping groupBy tz rows groups' where
  distinct := (hp.map Prod.fst).nodup_iff.mpr h.distinct
  keys := fun key => (hp.map Prod.fst).mem_iff.trans (h.keys key)
  totals := fun e he => h.totals e (hp.mem_iff.mp he)

end

/-! ## What a scan keeps -/

section

variable {query : SummaryQuery} {rows : List UsageRecord} {s : Scan}

def scanned (query : SummaryQuery) (rows : List UsageRecord) : Scan := rows.foldl (Scan.addRow query) {}

theorem foldl_addRow_read (s : Scan) (rows : List UsageRecord) :
    (rows.foldl (Scan.addRow query) s).read = s.read + rows.length := by
  induction rows generalizing s with
  | nil => rfl
  | cons record rows ih =>
    rw [List.foldl_cons, ih, List.length_cons]
    show s.read + 1 + rows.length = s.read + (rows.length + 1)
    omega

theorem foldl_addRow_truncated (s : Scan) (rows : List UsageRecord) :
    (rows.foldl (Scan.addRow query) s).truncated = s.truncated := by
  induction rows generalizing s with
  | nil => rfl
  | cons record rows ih => exact ih _

theorem foldl_addRow_totals (s : Scan) (rows : List UsageRecord) :
    (rows.foldl (Scan.addRow query) s).totals = rows.foldl UsageTotals.add s.totals := by
  induction rows generalizing s with
  | nil => rfl
  | cons record rows ih => exact ih _

theorem foldl_addRow_groups {groupBy : GroupBy} (hgroup : query.groupBy = some groupBy) (s : Scan)
    (rows : List UsageRecord) : (rows.foldl (Scan.addRow query) s).groups =
      rows.foldl (fun t e => t.insert (groupKey e groupBy query.tzOffsetMinutes)
        ((t[groupKey e groupBy query.tzOffsetMinutes]?.getD {}).add e)) s.groups := by
  induction rows generalizing s with
  | nil => rfl
  | cons record rows ih =>
    rw [List.foldl_cons, List.foldl_cons, ih]
    unfold Scan.addRow
    rw [hgroup]

theorem foldl_addRow_ungrouped (hgroup : query.groupBy = none) (s : Scan) (rows : List UsageRecord) :
    (rows.foldl (Scan.addRow query) s).groups = s.groups := by
  induction rows generalizing s with
  | nil => rfl
  | cons record rows ih =>
    rw [List.foldl_cons, ih]
    unfold Scan.addRow
    rw [hgroup]

theorem foldl_entry (rows : List UsageRecord) :
    rows.foldl (fun o e => some (UsageTotals.add (o.getD {}) e)) none =
      if rows = [] then none else some (sums rows) := by
  have hsome : ∀ (rows : List UsageRecord) (totals : UsageTotals),
      rows.foldl (fun o e => some (UsageTotals.add (o.getD {}) e)) (some totals) =
        some (rows.foldl UsageTotals.add totals) := by
    intro rows
    induction rows with
    | nil => exact fun _ => rfl
    | cons record rows ih => exact fun totals => ih (totals.add record)
  rcases rows with _ | ⟨record, rows⟩
  · rfl
  · rw [if_neg (List.cons_ne_nil _ _)]
    exact hsome rows _

theorem getElem?_scanned {groupBy : GroupBy} (hgroup : query.groupBy = some groupBy) (key : String) :
    (scanned query rows).groups[key]? =
      if rowsOf groupBy query.tzOffsetMinutes key rows = [] then none
      else some (sums (rowsOf groupBy query.tzOffsetMinutes key rows)) := by
  unfold scanned
  rw [foldl_addRow_groups hgroup]
  rw [Table.getElem?_foldl_upsert (fun e => groupKey e groupBy query.tzOffsetMinutes) (fun _ => {}) UsageTotals.add]
  have hempty : ({} : Scan).groups[key]? = none := Std.ExtTreeMap.getElem?_empty
  rw [hempty]
  exact foldl_entry _

theorem grouping_scanned {groupBy : GroupBy} (hgroup : query.groupBy = some groupBy) :
    Grouping groupBy query.tzOffsetMinutes rows (scanned query rows).groups.toList where
  distinct := Table.nodup_toList_fst _
  keys := by
    intro key
    have hentry : key ∈ (scanned query rows).groups.toList.map Prod.fst ↔
        ∃ totals, (scanned query rows).groups[key]? = some totals := by
      rw [List.mem_map]
      constructor
      · rintro ⟨⟨k, totals⟩, he, rfl⟩
        exact ⟨totals, Table.mem_toList.mp he⟩
      · rintro ⟨totals, htotals⟩
        exact ⟨(key, totals), Table.mem_toList.mpr htotals, rfl⟩
    rw [hentry, getElem?_scanned hgroup]
    by_cases hnone : rowsOf groupBy query.tzOffsetMinutes key rows = []
    · rw [if_pos hnone]
      refine iff_of_false (by rintro ⟨totals, ⟨⟩⟩) ?_
      rintro ⟨record, hrecord, hkey⟩
      have hmem : record ∈ rowsOf groupBy query.tzOffsetMinutes key rows :=
        List.mem_filter.mpr ⟨hrecord, decide_eq_true hkey⟩
      rw [hnone] at hmem
      exact absurd hmem List.not_mem_nil
    · rw [if_neg hnone]
      obtain ⟨record, hrecord⟩ := List.exists_mem_of_ne_nil _ hnone
      obtain ⟨hmem, hkey⟩ := List.mem_filter.mp hrecord
      exact iff_of_true ⟨_, rfl⟩ ⟨record, hmem, of_decide_eq_true hkey⟩
  totals := by
    rintro ⟨key, totals⟩ he c
    have hlookup := Table.mem_toList.mp he
    rw [getElem?_scanned hgroup] at hlookup
    by_cases hnone : rowsOf groupBy query.tzOffsetMinutes key rows = []
    · rw [if_pos hnone] at hlookup
      cases hlookup
    · rw [if_neg hnone] at hlookup
      cases hlookup
      exact get_sums c _

/-- The groups in order: days by their key, others by their tokens, most first, and then by their key. -/
def InOrder (groupBy : GroupBy) (groups : List (String × UsageTotals)) : Prop :=
  if groupBy = .day then groups.Pairwise fun a b => a.1 < b.1
  else groups.Pairwise fun a b => b.2.tokens.totalTokens < a.2.tokens.totalTokens ∨
    a.2.tokens.totalTokens = b.2.tokens.totalTokens ∧ a.1 < b.1

instance : Std.TransCmp compareGroups := by
  have htokens : Std.TransCmp fun a b : String × UsageTotals => compare b.2.tokens.totalTokens a.2.tokens.totalTokens :=
    inferInstanceAs (Std.TransCmp fun a b : String × UsageTotals => compareOn (fun e => e.2.tokens.totalTokens) b a)
  exact inferInstanceAs (Std.TransCmp (compareLex
    (fun a b : String × UsageTotals => compare b.2.tokens.totalTokens a.2.tokens.totalTokens) (compareOn Prod.fst)))

theorem isLT_compareGroups {a b : String × UsageTotals} (h : (compareGroups a b).isLT = true) :
    b.2.tokens.totalTokens < a.2.tokens.totalTokens ∨
      a.2.tokens.totalTokens = b.2.tokens.totalTokens ∧ a.1 < b.1 := by
  unfold compareGroups at h
  rw [Ordering.isLT_iff_eq_lt, Ordering.then_eq_lt] at h
  rcases h with h | ⟨heq, h⟩
  · exact Or.inl (Nat.compare_eq_lt.mp h)
  · exact Or.inr ⟨(Nat.compare_eq_eq.mp heq).symm, compare_lt_iff_lt.mp h⟩

theorem eq_of_compareGroups {a b : String × UsageTotals} (h : compareGroups a b = .eq) : a.1 = b.1 := by
  unfold compareGroups at h
  rw [Ordering.then_eq_eq] at h
  exact compare_eq_iff_eq.mp h.2

/-- The groups of a summary before they are cut. -/
def sortedGroups (query : SummaryQuery) (groups : Table String UsageTotals) : List (String × UsageTotals) :=
  if query.groupBy = some .day then groups.toList
  else groups.toList.mergeSort fun left right => (compareGroups left right).isLE

theorem sortedGroups_perm (query : SummaryQuery) (groups : Table String UsageTotals) :
    (sortedGroups query groups).Perm groups.toList := by
  unfold sortedGroups
  by_cases hday : query.groupBy = some .day
  · rw [if_pos hday]
  · rw [if_neg hday]
    exact List.mergeSort_perm _ _

theorem sortedGroups_inOrder {groupBy : GroupBy} (hgroup : query.groupBy = some groupBy)
    (groups : Table String UsageTotals) : InOrder groupBy (sortedGroups query groups) := by
  unfold InOrder sortedGroups
  by_cases hday : groupBy = .day
  · rw [if_pos hday, if_pos (hday ▸ hgroup)]
    exact Std.ExtTreeMap.ordered_keys_toList.imp fun h => compare_lt_iff_lt.mp h
  · have hnot : query.groupBy ≠ some .day := by
      rw [hgroup]
      exact fun h => hday (Option.some.inj h)
    rw [if_neg hday, if_neg hnot]
    refine (sorted_mergeSort (Table.nodup_toList groups) fun a ha b hb heq => ?_).imp fun h => isLT_compareGroups h
    exact List.inj_on_of_nodup_map (Table.nodup_toList_fst groups) ha hb (eq_of_compareGroups heq)

end

/-! ## Days -/

theorem days_fit {createdAtMs : ℕ} {tz : ℤ} (htime : createdAtMs < 2 ^ 64) (htz : -2 ^ 31 ≤ tz ∧ tz < 2 ^ 31) :
    -2 ^ 63 ≤ (createdAtMs + tz * 60000) / 86400000 ∧ ((createdAtMs + tz * 60000) / 86400000 : ℤ) < 2 ^ 63 := by
  omega

def dateText (d : Date) : String := padded 4 d.year ++ "-" ++ padded 2 d.month ++ "-" ++ padded 2 d.day

theorem dayKey_eq {f : ℤ → Date} (hf : IsGregorian f) (createdAtMs : ℕ) (tz : ℤ) :
    dayKey createdAtMs tz = dateText (f ((createdAtMs + tz * 60000) / 86400000)) := by
  rw [hf.eq isGregorian_civilFromDays]
  obtain ⟨z, hz⟩ : ∃ z : ℤ, z = ((createdAtMs : ℤ) + tz * 60000) / 86400000 + 719468 := ⟨_, rfl⟩
  obtain ⟨n, hn⟩ : ∃ n, n = z % 146097 := ⟨_, rfl⟩
  have hrange : 0 ≤ n ∧ n < 146097 := by omega
  obtain ⟨hyear, hlow, hhigh⟩ := yearOfEra_spec hrange.1 hrange.2
  -- all divisions of the source are of numbers that are not negative
  have hyearOfEra : (n - n.tdiv 1460 + n.tdiv 36524 - n.tdiv 146096).tdiv 365 = yearOfEra n := by
    rw [Int.tdiv_eq_ediv_of_nonneg hrange.1, Int.tdiv_eq_ediv_of_nonneg hrange.1, Int.tdiv_eq_ediv_of_nonneg hrange.1]
    exact Int.tdiv_eq_ediv_of_nonneg (by omega)
  have hyearStart : 365 * yearOfEra n + (yearOfEra n).tdiv 4 - (yearOfEra n).tdiv 100 = yearStart (yearOfEra n) := by
    rw [Int.tdiv_eq_ediv_of_nonneg hyear.1, Int.tdiv_eq_ediv_of_nonneg hyear.1]
    rfl
  have hmonth : (5 * (n - yearStart (yearOfEra n)) + 2).tdiv 153 = (5 * (n - yearStart (yearOfEra n)) + 2) / 153 :=
    Int.tdiv_eq_ediv_of_nonneg (by omega)
  have hmonthStart : (153 * ((5 * (n - yearStart (yearOfEra n)) + 2) / 153) + 2).tdiv 5 =
      monthStart ((5 * (n - yearStart (yearOfEra n)) + 2) / 153) := Int.tdiv_eq_ediv_of_nonneg (by omega)
  unfold dayKey
  dsimp only
  rw [← hz, ← hn, hyearOfEra, hyearStart, hmonth, hmonthStart]
  unfold civilFromDays
  dsimp only
  rw [← hz, ← hn]
  rfl

end AnimaCore.Usage
