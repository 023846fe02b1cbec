import AnimaCore.Usage

/-!
# AnimaCore.Usage.Summary — usage summaries

`usage/summary.rs`: sums over the usage rows of a range, read in pages from a history store and grouped on the way.  The
store is an argument: it answers a page query or fails.  The loop of `summarize_with_cap` has fuel; `none` says that it
ran out.
-/

namespace AnimaCore.Usage

open Lib RunDelta

def usageScanPage : ℕ := 2000

def maxSessionGroups : ℕ := 20

def UsageSource.asStr : UsageSource → String
  | .chat => "chat"
  | .telegram => "telegram"
  | .discord => "discord"
  | .email => "email"
  | .automation => "automation"
  | .job => "job"
  | .helper => "helper"
  | .api => "api"
  | .title => "title"
  | .compaction => "compaction"
  | .profile => "profile"
  | .agency => "agency"
  | .approval => "approval"
  | .sideQuestion => "side_question"
  | .skillEvaluation => "skill_evaluation"

/-- `UsageTotals`, with the five counters in one field. -/
structure UsageTotals where
  calls : ℕ := 0
  tokens : TokenUsage := {}
  costMicros : ℕ := 0
  unpricedCalls : ℕ := 0
  subscriptionCalls : ℕ := 0
  deriving DecidableEq, Repr

def UsageTotals.add (totals : UsageTotals) (record : UsageRecord) : UsageTotals :=
  let totals := { totals with calls := saturatingSum totals.calls 1, tokens := addUsage totals.tokens record.tokens }
  match record.costMicros with
  | some cost => { totals with costMicros := saturatingSum totals.costMicros cost }
  | none =>
    if record.pricingSource = .subscription then
      { totals with subscriptionCalls := saturatingSum totals.subscriptionCalls 1 }
    else { totals with unpricedCalls := saturatingSum totals.unpricedCalls 1 }

inductive GroupBy
  | day
  | model
  | source
  | session
  deriving DecidableEq, Repr

structure SummaryQuery where
  fromMs : ℕ
  toMs : ℕ
  agentId : Option String
  sessionId : Option String
  groupBy : Option GroupBy
  tzOffsetMinutes : ℤ

structure Summary where
  totals : UsageTotals
  groups : List (String × UsageTotals)
  truncated : Bool
  deriving DecidableEq

structure UsagePageQuery where
  fromMs : ℕ
  toMs : ℕ
  agentId : Option String
  sessionId : Option String
  before : Option (ℕ × String)
  limit : ℕ

/-- The usage rows of `MemoryHistoryStore`, by their identifiers. -/
structure MemoryStore where
  usage : Table String UsageRecord
  keyed : ∀ (id : String) (record : UsageRecord), usage[id]? = some record → record.id = id

def MemoryStore.rows (s : MemoryStore) : List UsageRecord := s.usage.toList.map Prod.snd

/-- `page_usage` of `MemoryHistoryStore`. -/
def MemoryStore.pageUsage (s : MemoryStore) (query : UsagePageQuery) : List UsageRecord :=
  let rows := s.rows.filter fun record =>
    decide (query.fromMs ≤ record.createdAtMs) && decide (record.createdAtMs < query.toMs) &&
      query.agentId.all (· == record.agentId) && query.sessionId.all (some · == record.sessionId) &&
      query.before.all fun before => (compare (record.createdAtMs, record.id) before).isLT
  let rows := rows.mergeSort fun left right => (compare (right.createdAtMs, right.id) (left.createdAtMs, left.id)).isLE
  rows.take query.limit

/-! ## Group keys -/

/-- A number in a field of a width, filled with zeros behind its sign. -/
def padded (width : ℕ) (n : ℤ) : String :=
  let digits := toString n.natAbs
  if n < 0 then "-" ++ String.ofList (List.replicate (width - 1 - digits.length) '0') ++ digits
  else String.ofList (List.replicate (width - digits.length) '0') ++ digits

/-- `day_key`; the days of a time and an offset fit in an `i64` (`days_fit`). -/
def dayKey (createdAtMs : ℕ) (tzOffsetMinutes : ℤ) : String :=
  let shifted : ℤ := createdAtMs + tzOffsetMinutes * 60000
  let days := shifted / 86400000
  let z := days + 719468
  let era := z / 146097
  let dayOfEra := z % 146097
  let yearOfEra := (dayOfEra - dayOfEra.tdiv 1460 + dayOfEra.tdiv 36524 - dayOfEra.tdiv 146096).tdiv 365
  let dayOfYear := dayOfEra - (365 * yearOfEra + yearOfEra.tdiv 4 - yearOfEra.tdiv 100)
  let monthIndex := (5 * dayOfYear + 2).tdiv 153
  let day := dayOfYear - (153 * monthIndex + 2).tdiv 5 + 1
  let month := if monthIndex < 10 then monthIndex + 3 else monthIndex - 9
  let year := yearOfEra + era * 400 + (if month ≤ 2 then 1 else 0)
  padded 4 year ++ "-" ++ padded 2 month ++ "-" ++ padded 2 day

def groupKey (record : UsageRecord) (groupBy : GroupBy) (tzOffsetMinutes : ℤ) : String :=
  match groupBy with
  | .day => dayKey record.createdAtMs tzOffsetMinutes
  | .model => record.provider ++ "/" ++ record.model
  | .source => record.source.asStr
  | .session => record.sessionId.getD ""

/-! ## The scan -/

structure Scan where
  totals : UsageTotals := {}
  groups : Table String UsageTotals := ∅
  read : ℕ := 0
  truncated : Bool := false

def Scan.addRow (query : SummaryQuery) (s : Scan) (record : UsageRecord) : Scan :=
  { s with
    read := s.read + 1
    totals := s.totals.add record
    groups := match query.groupBy with
      | some groupBy =>
        let key := groupKey record groupBy query.tzOffsetMinutes
        s.groups.insert key ((s.groups[key]?.getD {}).add record)
      | none => s.groups }

/-- The rows of a page; `true` once the row cap ends the scan. -/
def Scan.readPage (query : SummaryQuery) (maxRows : ℕ) : Scan → List UsageRecord → Scan × Bool
  | s, [] => (s, false)
  | s, record :: page =>
    if maxRows ≤ s.read then ({ s with truncated := true }, true)
    else (s.addRow query record).readPage query maxRows page

def SummaryQuery.page (query : SummaryQuery) (before : Option (ℕ × String)) (limit : ℕ) : UsagePageQuery where
  fromMs := query.fromMs
  toMs := query.toMs
  agentId := query.agentId
  sessionId := query.sessionId
  before
  limit

/-- The limit of a page: one row past the cap, so that a row beyond it proves there is more. -/
def pageLimit (maxRows read : ℕ) : ℕ := min usageScanPage (saturatingSum (maxRows - read) 1)

variable {ε : Type}

/-- The loop of `summarize_with_cap`. -/
def scan (store : UsagePageQuery → Except ε (List UsageRecord)) (query : SummaryQuery) (maxRows : ℕ) :
    ℕ → Option (ℕ × String) → Scan → Except ε (Option Scan)
  | 0, _, _ => .ok none
  | fuel + 1, before, s => do
    let page ← store (query.page before (pageLimit maxRows s.read))
    if (s.readPage query maxRows page).2 then return some (s.readPage query maxRows page).1
    else
      match page.getLast? with
      | some last =>
        if pageLimit maxRows s.read ≤ page.length then
          scan store query maxRows fuel (some (last.createdAtMs, last.id)) (s.readPage query maxRows page).1
        else return some (s.readPage query maxRows page).1
      | none => return some (s.readPage query maxRows page).1

def compareGroups (left right : String × UsageTotals) : Ordering :=
  (compare right.2.tokens.totalTokens left.2.tokens.totalTokens).then (compare left.1 right.1)

def Scan.summary (query : SummaryQuery) (s : Scan) : Summary :=
  let groups := s.groups.toList
  let groups := if query.groupBy = some .day then groups
    else groups.mergeSort fun left right => (compareGroups left right).isLE
  let groups := if query.groupBy = some .session then groups.take maxSessionGroups else groups
  { totals := s.totals, groups, truncated := s.truncated }

def summarizeWithCap (store : UsagePageQuery → Except ε (List UsageRecord)) (query : SummaryQuery) (maxRows fuel : ℕ) :
    Except ε (Option Summary) := do
  let s ← scan store query maxRows fuel none {}
  return s.map (Scan.summary query)

end AnimaCore.Usage
