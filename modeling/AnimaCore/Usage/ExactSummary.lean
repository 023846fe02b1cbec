import AnimaCore.Lib.Nearest
import AnimaCore.Usage.ExactSums

/-!
# AnimaCore.Usage.ExactSummary — summaries are exact up to the cap

* `Serves`: what a history store answers to a page query.  `Serves.page_eq`: a page is cut from the range in order.
* `Exact`, `summarize_exact`: what a summary says of the rows of its range.
-/

namespace AnimaCore.Usage

open Lib RunDelta

variable {ε : Type} {store : UsagePageQuery → Except ε (List UsageRecord)} {rows : List UsageRecord}
  {query : SummaryQuery} {maxRows : ℕ}

/-! ## Pages -/

/-- The place of a row: its time, then its identifier. -/
def position (record : UsageRecord) : ℕ × String := (record.createdAtMs, record.id)

def compareNewest (left right : UsageRecord) : Ordering := compare (position right) (position left)

instance : Std.TransCmp compareNewest :=
  inferInstanceAs (Std.TransCmp fun a b : UsageRecord => compareOn position b a)

def inRange (fromMs toMs : ℕ) (agentId sessionId : Option String) (record : UsageRecord) : Bool :=
  decide (fromMs ≤ record.createdAtMs) && decide (record.createdAtMs < toMs) && agentId.all (· == record.agentId) &&
    sessionId.all (some · == record.sessionId)

def older (before : Option (ℕ × String)) (record : UsageRecord) : Bool :=
  before.all fun before => (compare (position record) before).isLT

def newestFirst (rows : List UsageRecord) : List UsageRecord :=
  rows.mergeSort fun left right => (compareNewest left right).isLE

/-- A history store with these usage rows: a page has the newest rows of the range strictly before the place. -/
structure Serves (store : UsagePageQuery → Except ε (List UsageRecord)) (rows : List UsageRecord) : Prop where
  distinct : (rows.map (·.id)).Nodup
  page : ∀ q, store q = .ok ((newestFirst (rows.filter fun record =>
    inRange q.fromMs q.toMs q.agentId q.sessionId record && older q.before record)).take q.limit)

theorem MemoryStore.serves (s : MemoryStore) : Serves (fun q => (.ok (s.pageUsage q) : Except ε _)) s.rows where
  distinct := by
    have hkeys : s.rows.map (·.id) = s.usage.toList.map Prod.fst := by
      unfold MemoryStore.rows
      rw [List.map_map]
      exact List.map_congr_left fun e he => s.keyed e.1 e.2 (Table.mem_toList.mp he)
    rw [hkeys]
    exact Table.nodup_toList_fst _
  page := fun _ => rfl

def SummaryQuery.range (query : SummaryQuery) (rows : List UsageRecord) : List UsageRecord :=
  newestFirst (rows.filter (inRange query.fromMs query.toMs query.agentId query.sessionId))

theorem eq_of_compareNewest {l : List UsageRecord} (hnd : (l.map (·.id)).Nodup) {a b : UsageRecord}
    (ha : a ∈ l) (hb : b ∈ l) (heq : compareNewest a b = .eq) : a = b := by
  have hposition : position b = position a := Std.LawfulEqCmp.eq_of_compare heq
  exact List.inj_on_of_nodup_map hnd ha hb (congrArg Prod.snd hposition).symm

theorem newestFirst_sorted {l : List UsageRecord} (hnd : (l.map (·.id)).Nodup) :
    (newestFirst l).Pairwise fun a b => (compareNewest a b).isLT = true :=
  sorted_mergeSort hnd.of_map fun _ ha _ hb => eq_of_compareNewest hnd ha hb

theorem mem_newestFirst {l : List UsageRecord} {record : UsageRecord} : record ∈ newestFirst l ↔ record ∈ l :=
  (List.mergeSort_perm l _).mem_iff

theorem newestFirst_filter {l : List UsageRecord} (hnd : (l.map (·.id)).Nodup) (p : UsageRecord → Bool) :
    newestFirst (l.filter p) = (newestFirst l).filter p := by
  have hpart : ((l.filter p).map (·.id)).Nodup := hnd.sublist (List.filter_sublist.map _)
  refine eq_of_sorted (newestFirst_sorted hpart) ((newestFirst_sorted hnd).filter p) fun record => ?_
  rw [mem_newestFirst, List.mem_filter, List.mem_filter, mem_newestFirst]

theorem Serves.range_sorted (h : Serves store rows) :
    (query.range rows).Pairwise fun a b => (compareNewest a b).isLT = true :=
  newestFirst_sorted (h.distinct.sublist (List.filter_sublist.map _))

theorem Serves.page_eq (h : Serves store rows) (before : Option (ℕ × String)) (limit : ℕ) :
    store (query.page before limit) = .ok (((query.range rows).filter (older before)).take limit) := by
  rw [h.page]
  have hpart : ((rows.filter (inRange query.fromMs query.toMs query.agentId query.sessionId)).map (·.id)).Nodup :=
    h.distinct.sublist (List.filter_sublist.map _)
  have hfilter : (rows.filter fun record => inRange query.fromMs query.toMs query.agentId query.sessionId record &&
      older before record) =
      (rows.filter (inRange query.fromMs query.toMs query.agentId query.sessionId)).filter (older before) := by
    rw [List.filter_filter]
    exact List.filter_congr fun record _ => Bool.and_comm _ _
  show Except.ok ((newestFirst (rows.filter fun record =>
    inRange query.fromMs query.toMs query.agentId query.sessionId record && older before record)).take limit) = _
  rw [hfilter, newestFirst_filter hpart]
  rfl

theorem older_of_page {all : List UsageRecord} (hall : all.Pairwise fun a b => (compareNewest a b).isLT = true)
    {counted page rest : List UsageRecord} {last : UsageRecord} (hsplit : all = counted ++ (page ++ rest))
    (hlast : page.getLast? = some last) : all.filter (older (some (position last))) = rest := by
  obtain ⟨front, hfront⟩ := List.getLast?_eq_some_iff.mp hlast
  have hform : all = (counted ++ front) ++ last :: rest := by
    rw [hsplit, hfront, List.append_assoc, List.append_assoc, List.singleton_append]
  rw [hform] at hall ⊢
  exact filter_behind hall

/-! ## The scan -/

theorem readPage_cons (query : SummaryQuery) (maxRows : ℕ) (s : Scan) (record : UsageRecord) (page : List UsageRecord) :
    s.readPage query maxRows (record :: page) =
      if maxRows ≤ s.read then ({ s with truncated := true }, true)
      else (s.addRow query record).readPage query maxRows page := rfl

theorem readPage_eq (s : Scan) (page : List UsageRecord) (hread : s.read ≤ maxRows) :
    s.readPage query maxRows page =
      if s.read + page.length ≤ maxRows then (page.foldl (Scan.addRow query) s, false)
      else ({ (page.take (maxRows - s.read)).foldl (Scan.addRow query) s with truncated := true }, true) := by
  induction page generalizing s with
  | nil => exact (if_pos hread).symm
  | cons record page ih =>
    rw [readPage_cons, List.length_cons]
    by_cases hfull : maxRows ≤ s.read
    · have hzero : maxRows - s.read = 0 := by omega
      rw [if_pos hfull, if_neg (by omega), hzero, List.take_zero, List.foldl_nil]
    · have hnext : (s.addRow query record).read = s.read + 1 := rfl
      have htake : maxRows - s.read = maxRows - (s.read + 1) + 1 := by omega
      rw [if_neg hfull, ih _ (by rw [hnext]; omega), hnext, htake, List.take_succ_cons, List.foldl_cons, List.foldl_cons]
      exact if_congr (by omega) rfl rfl

theorem scanned_append (query : SummaryQuery) (front back : List UsageRecord) :
    back.foldl (Scan.addRow query) (scanned query front) = scanned query (front ++ back) := by
  unfold scanned
  rw [List.foldl_append]

theorem read_scanned (query : SummaryQuery) (l : List UsageRecord) : (scanned query l).read = l.length := by
  unfold scanned
  rw [foldl_addRow_read]
  exact Nat.zero_add _

def scanResult (query : SummaryQuery) (maxRows : ℕ) (all : List UsageRecord) : Scan :=
  { scanned query (all.take maxRows) with truncated := decide (maxRows < all.length) }

theorem scanResult_of_le (query : SummaryQuery) {all : List UsageRecord} (hle : all.length ≤ maxRows) :
    scanResult query maxRows all = scanned query all := by
  have htruncated : (scanned query all).truncated = false := foldl_addRow_truncated {} all
  unfold scanResult
  rw [List.take_of_length_le hle, decide_eq_false (by omega), ← htruncated]

theorem pageLimit_pos (maxRows read : ℕ) : 0 < pageLimit maxRows read := by
  unfold pageLimit usageScanPage saturatingSum
  omega

theorem pageLimit_le (maxRows read : ℕ) : pageLimit maxRows read ≤ maxRows - read + 1 := by
  unfold pageLimit saturatingSum
  omega

theorem scan_succ {before : Option (ℕ × String)} {s : Scan} {page : List UsageRecord} (fuel : ℕ)
    (hpage : store (query.page before (pageLimit maxRows s.read)) = .ok page) :
    scan store query maxRows (fuel + 1) before s =
      if (s.readPage query maxRows page).2 = true then .ok (some (s.readPage query maxRows page).1)
      else page.getLast?.elim (.ok (some (s.readPage query maxRows page).1)) fun last =>
        if pageLimit maxRows s.read ≤ page.length then
          scan store query maxRows fuel (some (position last)) (s.readPage query maxRows page).1
        else .ok (some (s.readPage query maxRows page).1) := by
  have hstep : scan store query maxRows (fuel + 1) before s =
      (store (query.page before (pageLimit maxRows s.read)) >>= fun page =>
        if (s.readPage query maxRows page).2 = true then .ok (some (s.readPage query maxRows page).1)
        else page.getLast?.elim (.ok (some (s.readPage query maxRows page).1)) fun last =>
          if pageLimit maxRows s.read ≤ page.length then
            scan store query maxRows fuel (some (position last)) (s.readPage query maxRows page).1
          else .ok (some (s.readPage query maxRows page).1)) := by
    show (store (query.page before (pageLimit maxRows s.read)) >>= _) = _
    refine congrArg _ (funext fun page => if_congr Iff.rfl rfl ?_)
    rcases page.getLast? with _ | last
    · rfl
    · rfl
  rw [hstep, hpage]
  rfl

theorem scan_eq (h : Serves store rows) (fuel : ℕ) {before : Option (ℕ × String)} {counted left : List UsageRecord}
    (hsplit : query.range rows = counted ++ left) (hbefore : (query.range rows).filter (older before) = left)
    (hcounted : counted.length ≤ maxRows) (hfuel : left.length < fuel) :
    scan store query maxRows fuel before (scanned query counted) =
      .ok (some (scanResult query maxRows (query.range rows))) := by
  induction fuel generalizing before counted left with
  | zero => omega
  | succ fuel ih =>
    have hpos := pageLimit_pos maxRows counted.length
    have hle := pageLimit_le maxRows counted.length
    obtain ⟨limit, hlimit⟩ : ∃ limit, limit = pageLimit maxRows counted.length := ⟨_, rfl⟩
    obtain ⟨page, hpage⟩ : ∃ page, page = left.take limit := ⟨_, rfl⟩
    have hlength : page.length = min limit left.length := by rw [hpage, List.length_take]
    have hrest : page ++ left.drop limit = left := by rw [hpage, List.take_append_drop]
    have hanswer : store (query.page before (pageLimit maxRows (scanned query counted).read)) = .ok page := by
      rw [read_scanned, h.page_eq, hbefore, hpage, hlimit]
    have hread := @readPage_eq query maxRows (scanned query counted) page (by rw [read_scanned]; exact hcounted)
    rw [scan_succ fuel hanswer, hread, read_scanned, ← hlimit]
    rw [← hlimit] at hpos hle
    by_cases hfits : counted.length + page.length ≤ maxRows
    · -- the cap is not passed: all rows of the page count
      rw [if_pos hfits, if_neg Bool.false_ne_true, scanned_append]
      have hwhole : page = left → scanned query (counted ++ page) = scanResult query maxRows (query.range rows) := by
        intro hpart
        rw [hsplit, hpart]
        refine (scanResult_of_le query ?_).symm
        rw [List.length_append, ← hpart]
        exact hfits
      rcases hlast : page.getLast? with _ | last
      · have hnil : page = [] := List.getLast?_eq_none_iff.mp hlast
        rw [hnil, List.length_nil] at hlength
        have hleft : left = [] := List.length_eq_zero_iff.mp (by omega)
        rw [Option.elim_none, hwhole (by rw [hnil, hleft])]
      · rw [Option.elim_some]
        by_cases hmore : limit ≤ page.length
        · rw [if_pos hmore]
          have hsplit' : query.range rows = counted ++ (page ++ left.drop limit) := by rw [hrest, hsplit]
          refine ih (hsplit'.trans (List.append_assoc _ _ _).symm) (older_of_page h.range_sorted hsplit' hlast) ?_ ?_
          · rw [List.length_append]
            exact hfits
          · rw [List.length_drop]
            omega
        · have hpart : page = left := by
            rw [hpage]
            exact List.take_of_length_le (by omega)
          rw [if_neg hmore, hwhole hpart]
    · -- a row past the cap ends the scan
      rw [if_neg hfits, if_pos rfl, scanned_append]
      have hcut : page.take (maxRows - counted.length) = left.take (maxRows - counted.length) := by
        rw [hpage, List.take_take, min_eq_left (by omega)]
      have hall : (query.range rows).take maxRows = counted ++ left.take (maxRows - counted.length) := by
        rw [hsplit, List.take_append, List.take_of_length_le hcounted]
      have hlong : maxRows < (query.range rows).length := by
        rw [hsplit, List.length_append]
        omega
      unfold scanResult
      rw [hcut, ← hall, decide_eq_true hlong]

/-! ## The summary -/

/-- What a summary says of the rows of its range, newest first. -/
structure Exact (query : SummaryQuery) (maxRows : ℕ) (range : List UsageRecord) (summary : Summary) : Prop where
  truncated : summary.truncated = decide (maxRows < range.length)
  totals : ∀ c, summary.totals.get c = capped (total c (range.take maxRows))
  ungrouped : query.groupBy = none → summary.groups = []
  grouped : ∀ groupBy, query.groupBy = some groupBy → groupBy ≠ .session →
    Grouping groupBy query.tzOffsetMinutes (range.take maxRows) summary.groups ∧ InOrder groupBy summary.groups ∧
      ∀ c, total c (range.take maxRows) < 2 ^ 64 → (summary.groups.map fun e => e.2.get c).sum = summary.totals.get c
  sessions : query.groupBy = some .session → ∃ groups,
    Grouping .session query.tzOffsetMinutes (range.take maxRows) groups ∧ InOrder .session groups ∧
      summary.groups = groups.take 20

theorem exact_summary (query : SummaryQuery) (maxRows : ℕ) (all : List UsageRecord) :
    Exact query maxRows all ((scanResult query maxRows all).summary query) := by
  have htotals : (scanned query (all.take maxRows)).totals = sums (all.take maxRows) := foldl_addRow_totals {} _
  have hgroups : ((scanResult query maxRows all).summary query).groups =
      if query.groupBy = some .session
      then (sortedGroups query (scanned query (all.take maxRows)).groups).take maxSessionGroups
      else sortedGroups query (scanned query (all.take maxRows)).groups := rfl
  refine ⟨rfl, fun c => ?_, fun hnone => ?_, fun groupBy hgroup hnot => ?_, fun hsession => ?_⟩
  · show (scanned query (all.take maxRows)).totals.get c = _
    rw [htotals]
    exact get_sums c _
  · have hempty : (scanned query (all.take maxRows)).groups = ∅ := foldl_addRow_ungrouped hnone {} _
    have hnil : sortedGroups query (∅ : Table String UsageTotals) = [] := (sortedGroups_perm query _).eq_nil
    rw [hgroups, hempty, hnil, List.take_nil]
    exact ite_self _
  · have hcut : query.groupBy ≠ some .session := by
      rw [hgroup]
      exact fun h => hnot (Option.some.inj h)
    have hgrouping : Grouping groupBy query.tzOffsetMinutes (all.take maxRows)
        (sortedGroups query (scanned query (all.take maxRows)).groups) :=
      (grouping_scanned hgroup).perm (sortedGroups_perm query _)
    rw [hgroups, if_neg hcut]
    refine ⟨hgrouping, sortedGroups_inOrder hgroup _, fun c hlt => ?_⟩
    show _ = (scanned query (all.take maxRows)).totals.get c
    rw [htotals]
    exact hgrouping.addUp hlt
  · rw [hgroups, if_pos hsession]
    exact ⟨_, (grouping_scanned hsession).perm (sortedGroups_perm query _), sortedGroups_inOrder hsession _, rfl⟩

theorem length_range (query : SummaryQuery) (rows : List UsageRecord) :
    (query.range rows).length =
      rows.countP (inRange query.fromMs query.toMs query.agentId query.sessionId) := by
  unfold SummaryQuery.range newestFirst
  rw [List.length_mergeSort, List.countP_eq_length_filter]

/-- **Usage summaries are exact up to the cap.** -/
theorem summarize_exact (h : Serves store rows) (query : SummaryQuery) (maxRows : ℕ) :
    ∃ summary, (∃ bound, ∀ fuel, bound ≤ fuel → summarizeWithCap store query maxRows fuel = .ok (some summary)) ∧
      Exact query maxRows (query.range rows) summary ∧
      ∀ f, IsGregorian f → ∀ record ∈ rows, groupKey record .day query.tzOffsetMinutes =
        dateText (f ((record.createdAtMs + query.tzOffsetMinutes * 60000) / 86400000)) := by
  refine ⟨(scanResult query maxRows (query.range rows)).summary query,
    ⟨(query.range rows).length + 1, fun fuel hfuel => ?_⟩, exact_summary query maxRows _,
    fun f hf record _ => dayKey_eq hf record.createdAtMs query.tzOffsetMinutes⟩
  have hall : (query.range rows).filter (older none) = query.range rows := List.filter_eq_self.mpr fun _ _ => rfl
  have hscan := @scan_eq ε store rows query maxRows h fuel none [] (query.range rows) rfl hall (Nat.zero_le _) hfuel
  unfold summarizeWithCap
  rw [show ({} : Scan) = scanned query [] from rfl, hscan]
  rfl

namespace Sample

def row (id : String) (createdAtMs : ℕ) : UsageRecord where
  id
  agentId := "agent"
  sessionId := none
  runId := none
  source := .chat
  provider := "anthropic"
  model := "claude"
  tokens := { totalTokens := 15 }
  costMicros := some 100
  pricingSource := .table
  durationMs := 1
  createdAtMs

def memory : MemoryStore where
  usage := ((∅ : Table String UsageRecord).insert "a" (row "a" 1)).insert "b" (row "b" 2)
  keyed := by
    intro id record h
    rw [Table.getElem?_insert_eq, Table.getElem?_insert_eq] at h
    by_cases hb : "b" = id
    · rw [if_pos hb] at h
      cases h
      exact hb
    · rw [if_neg hb] at h
      by_cases ha : "a" = id
      · rw [if_pos ha] at h
        cases h
        exact ha
      · rw [if_neg ha] at h
        cases h

def dayQuery : SummaryQuery where
  fromMs := 0
  toMs := 10
  agentId := some "agent"
  sessionId := none
  groupBy := some .day
  tzOffsetMinutes := -60

end Sample

/-- One row of two is summed. -/
theorem summarize_exact_sample : ∃ summary fuel,
    summarizeWithCap (fun q => (.ok (Sample.memory.pageUsage q) : Except String _)) Sample.dayQuery 1 fuel =
      .ok (some summary) ∧
      summary.truncated = true := by
  obtain ⟨summary, ⟨bound, hresult⟩, hexact, -⟩ := summarize_exact Sample.memory.serves Sample.dayQuery 1
  refine ⟨summary, bound, hresult bound le_rfl, ?_⟩
  rw [hexact.truncated, length_range]
  rfl

end AnimaCore.Usage
