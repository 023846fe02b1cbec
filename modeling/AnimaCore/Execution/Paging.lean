import AnimaCore.Execution.EventLog
import AnimaCore.Execution.Forward
import AnimaCore.Execution.Ordering
import AnimaCore.Execution.Reads
import AnimaCore.Lib.Paging

/-!
# AnimaCore.Execution.Paging — reading the history of a run page by page

The first page fixes how far the read goes; the cursor carries that bound and the last number already read.  A run only
gains entries behind the ones it has, so a window means the same entries in every later state.

* `HistoryEntry`, `historyEntries`: what is read of a collection, in the order of insertion; an attempt is its key, since
  its record may move on between two pages.
* `historyPage`: one page of a collection, through `load_steps_page`, `load_attempts_page` or `replay_events`.
-/

namespace AnimaCore

open Lib RuntimeEvent

variable {digests : Digests} {s : State} {ownerId runId : Uuid} {commit : ExecutionCommit} {nowMs : ℕ}
  {patch : CommitPatch} {cursorKey : BitVec 128} {a : RunAggregate}

/-! ## Entries -/

inductive HistoryEntry
  | event (event : RuntimeEvent)
  | step (step : Step)
  | attempt (key : AttemptKey)
  deriving DecidableEq

def stepEntry (a : RunAggregate) (entry : ℕ × String) : Option HistoryEntry := a.steps[entry.2]?.map .step

/-- The entries of a collection in the order they were inserted. -/
def historyEntries (collection : HistoryCollection) (a : RunAggregate) : List HistoryEntry :=
  match collection with
  | .events => a.events.map .event
  | .steps => a.stepOrder.toList.filterMap (stepEntry a)
  | .attempts => a.attemptOrder.toList.map fun entry => .attempt entry.2

def HistoryEntry.IsStored (collection : HistoryCollection) (a : RunAggregate) : HistoryEntry → Prop
  | .event e => collection = .events ∧ e ∈ a.events
  | .step st => collection = .steps ∧ a.steps[st.logicalStepId]? = some st
  | .attempt key => collection = .attempts ∧ key ∈ a.attempts

def StoreReadPage.new (cursor : Option StoreReadCursor) (limit : ℕ) : StoreResult StoreReadPage :=
  if h : limit ≠ 0 ∧ limit ≤ maxStoreReadPageSize then .ok { cursor, limit, valid := h } else .error .boundsExceeded

def historyPage (digests : Digests) (cursorKey : BitVec 128) (ownerId runId : Uuid) (collection : HistoryCollection)
    (s : State) (cursor : Option StoreReadCursor) (limit : ℕ) :
    StoreResult (List HistoryEntry × Option StoreReadCursor) := do
  let page ← StoreReadPage.new cursor limit
  match collection with
  | .events =>
    let p ← replayEvents digests cursorKey ownerId runId page s
    return (p.events.map .event, p.nextCursor)
  | .steps =>
    let p ← loadStepsPage digests cursorKey ownerId runId page s
    return (p.items.map .step, p.nextCursor)
  | .attempts =>
    let p ← loadAttemptsPage digests cursorKey ownerId runId page s
    return (p.items.map (.attempt ·.key), p.nextCursor)

/-! ## One window -/

section Order

variable {κ ν : Type} [Ord κ] [Std.TransOrd κ] {order : Table ℕ κ} {t : Table κ ν} {next : ℕ}

theorem lastSequence_eq (ho : Ordered order t next) : lastSequence order = order.toList.length := by
  rw [lastSequence, ho.keys_eq, Std.ExtTreeMap.length_toList, List.getLast?_map, List.getLast?_range]
  split_ifs with hzero
  · simp [hzero]
  · simp
    omega

theorem orderRange_eq (ho : Ordered order t next) (last snapshot : ℕ) :
    orderRange order last snapshot = (order.toList.take snapshot).drop last :=
  filter_between ho.map_fst_toList last snapshot

theorem length_window (ho : Ordered order t next) (last : ℕ) {snapshot : ℕ} (hs : snapshot ≤ order.toList.length) :
    (orderRange order last snapshot).length = snapshot - last := by
  rw [orderRange_eq ho, List.length_drop, List.length_take_of_le hs]

theorem window_number (ho : Ordered order t next) (last : ℕ) {snapshot : ℕ} (hs : snapshot ≤ order.toList.length)
    (i : ℕ) (hi : last + i < snapshot) : (orderRange order last snapshot)[i]?.map (·.1) = some (last + i + 1) := by
  obtain ⟨k, hentry, _⟩ := ho.getElem_toList (i := last + i) (by omega)
  rw [orderRange_eq ho, List.getElem?_drop, List.getElem?_take_of_lt hi, List.getElem?_eq_getElem (by omega), hentry]
  rfl

theorem window_stored (ho : Ordered order t next) (last snapshot : ℕ) :
    ∀ e ∈ orderRange order last snapshot, (t[e.2]?).isSome := by
  rintro ⟨n, k⟩ he
  have hk := Table.mem_toList.mp (List.mem_of_mem_filter he)
  exact Table.mem_iff_getElem?_isSome.mp (ho.stored n k hk)

end Order

theorem historyPage_closed {α : Type} (digests : Digests) (cursorKey : BitVec 128) (ownerId runId : Uuid)
    (collection : HistoryCollection) {snapshot last limit : ℕ} (items : List α) (lastRead : Option ℕ)
    (hlimit : limit ≠ 0 ∧ limit ≤ maxStoreReadPageSize) (hlen : items.length ≤ limit)
    (hfull : last + limit < snapshot → items.length = limit)
    (hlast : last + limit < snapshot → lastRead = some (last + limit)) :
    ∃ next, nextHistoryCursor digests cursorKey ownerId runId collection snapshot lastRead
        (decide (last + limit < snapshot)) = .ok next ∧
      StoreHistoryPage.new items next = .ok { items, nextCursor := next } ∧
      BehindPage digests cursorKey ownerId runId collection snapshot last limit next := by
  by_cases hbehind : last + limit < snapshot
  · obtain ⟨cursor, hcursor⟩ :=
      writeCursor_ok digests cursorKey { ownerId, runId, collection, snapshot, last := last + limit }
    refine ⟨some cursor, ?_, ?_, .inr ⟨cursor, rfl, hbehind, hcursor⟩⟩
    · simp only [nextHistoryCursor, hbehind, decide_true, if_true, hlast hbehind, okOr, bind_eq_ok]
      exact ⟨_, rfl, cursor, hcursor, rfl⟩
    · have hne : items ≠ [] := by
        rintro rfl
        have := hfull hbehind
        simp only [List.length_nil] at this
        omega
      simp only [StoreHistoryPage.new, List.isEmpty_iff, hne, false_and, or_false]
      rw [if_neg (by omega)]
  · refine ⟨none, ?_, ?_, .inl ⟨rfl, by omega⟩⟩
    · simp [nextHistoryCursor, hbehind]
    · simp only [StoreHistoryPage.new, Option.isSome_none, Bool.false_eq_true, and_false, or_false]
      rw [if_neg (by omega)]

theorem loadStepsPage_window {page : StoreReadPage} {snapshot last : ℕ} (ha : s.runs[(ownerId, runId)]? = some a)
    (ho : Ordered a.stepOrder a.steps a.nextStepSequence)
    (hw : readWindow digests cursorKey ownerId runId .steps (lastSequence a.stepOrder) page = .ok (snapshot, last))
    (hs : snapshot ≤ a.stepOrder.toList.length) :
    ∃ next, loadStepsPage digests cursorKey ownerId runId page s =
        .ok { items := ((orderRange a.stepOrder last snapshot).take page.limit).filterMap fun e => a.steps[e.2]?
              nextCursor := next } ∧
      BehindPage digests cursorKey ownerId runId .steps snapshot last page.limit next := by
  have hpage := page.valid
  have hstored := window_stored ho last snapshot
  have hlen := length_window ho last hs
  have hnumber := window_number ho last hs
  have hread : loadStepsPage digests cursorKey ownerId runId page s = (do
      let taken ← ((orderRange a.stepOrder last snapshot).take (page.limit + 1)).mapM fun entry =>
        okOr a.steps[entry.2]? .historyConflict
      let items := if page.limit < taken.length then taken.dropLast else taken
      let nextCursor ← nextHistoryCursor digests cursorKey ownerId runId .steps snapshot
        ((orderRange a.stepOrder last snapshot)[items.length - 1]?.map (·.1)) (decide (page.limit < taken.length))
      StoreHistoryPage.new items nextCursor) := by
    unfold loadStepsPage
    rw [ha]
    show (readWindow digests cursorKey ownerId runId .steps (lastSequence a.stepOrder) page >>= _) = _
    rw [hw]
    simp only [decide_eq_true_eq]
    rfl
  generalize orderRange a.stepOrder last snapshot = window at *
  -- one step more than the limit is looked up
  rw [mapM_okOr _ fun e he => hstored e (List.mem_of_mem_take he), filterMap_take hstored] at hread
  rw [filterMap_take hstored]
  have hsteps := length_filterMap hstored
  generalize (window.filterMap fun e => a.steps[e.2]?) = steps at *
  have hmore : page.limit < (steps.take (page.limit + 1)).length ↔ last + page.limit < snapshot := by
    rw [one_more_iff]
    omega
  have hcount : last + page.limit < snapshot → (steps.take page.limit).length = page.limit := by
    intro hbehind
    rw [List.length_take]
    omega
  obtain ⟨next, hnext, hnew, hbehind⟩ := historyPage_closed digests cursorKey ownerId runId .steps
    (steps.take page.limit) (window[(steps.take page.limit).length - 1]?.map (·.1)) hpage (List.length_take_le _ _) hcount
    (fun hbehind => by
      rw [hcount hbehind, hnumber _ (by omega)]
      congr 1
      omega)
  refine ⟨next, ?_, hbehind⟩
  rw [hread]
  simp only [bind_eq_ok]
  refine ⟨_, rfl, next, ?_, ?_⟩
  · rw [take_of_one_more, decide_eq_decide.mpr hmore]
    exact hnext
  · rw [take_of_one_more]
    exact hnew

theorem loadAttemptsPage_window {page : StoreReadPage} {snapshot last : ℕ} (ha : s.runs[(ownerId, runId)]? = some a)
    (ho : Ordered a.attemptOrder a.attempts a.nextAttemptSequence)
    (hw : readWindow digests cursorKey ownerId runId .attempts (lastSequence a.attemptOrder) page = .ok (snapshot, last))
    (hs : snapshot ≤ a.attemptOrder.toList.length) :
    ∃ next, loadAttemptsPage digests cursorKey ownerId runId page s =
        .ok { items := ((orderRange a.attemptOrder last snapshot).take page.limit).filterMap fun e => a.attempts[e.2]?
              nextCursor := next } ∧
      BehindPage digests cursorKey ownerId runId .attempts snapshot last page.limit next := by
  have hpage := page.valid
  have hstored := window_stored ho last snapshot
  have hlen := length_window ho last hs
  have hnumber := window_number ho last hs
  have hread : loadAttemptsPage digests cursorKey ownerId runId page s = (do
      let taken := (orderRange a.attemptOrder last snapshot).take (page.limit + 1)
      let entries := if page.limit < taken.length then taken.dropLast else taken
      let nextCursor ← nextHistoryCursor digests cursorKey ownerId runId .attempts snapshot
        (entries.getLast?.map (·.1)) (decide (page.limit < taken.length))
      let items ← entries.mapM fun entry => okOr a.attempts[entry.2]? .historyConflict
      StoreHistoryPage.new items nextCursor) := by
    unfold loadAttemptsPage
    rw [ha]
    show (readWindow digests cursorKey ownerId runId .attempts (lastSequence a.attemptOrder) page >>= _) = _
    rw [hw]
    simp only [decide_eq_true_eq]
    rfl
  generalize orderRange a.attemptOrder last snapshot = window at *
  simp only [take_of_one_more] at hread
  have hin : ∀ e ∈ window.take page.limit, (a.attempts[e.2]?).isSome :=
    fun e he => hstored e (List.mem_of_mem_take he)
  have hmore : page.limit < (window.take (page.limit + 1)).length ↔ last + page.limit < snapshot := by
    rw [one_more_iff]
    omega
  have hcount : last + page.limit < snapshot → (window.take page.limit).length = page.limit := by
    intro hbehind
    rw [List.length_take]
    omega
  obtain ⟨next, hnext, hnew, hbehind⟩ := historyPage_closed digests cursorKey ownerId runId .attempts
    ((window.take page.limit).filterMap fun e => a.attempts[e.2]?) ((window.take page.limit).getLast?.map (·.1)) hpage
    (by rw [length_filterMap hin]; exact List.length_take_le _ _)
    (fun hbehind => by rw [length_filterMap hin, hcount hbehind])
    (fun hbehind => by
      rw [List.getLast?_eq_getElem?, hcount hbehind, List.getElem?_take_of_lt (by omega), hnumber _ (by omega)]
      congr 1
      omega)
  refine ⟨next, ?_, hbehind⟩
  rw [hread]
  simp only [bind_eq_ok]
  refine ⟨next, ?_, _, mapM_okOr _ hin, hnew⟩
  rw [decide_eq_decide.mpr hmore]
  exact hnext

/-! ## One page -/

theorem stepEntry_isSome (ho : HistoryOrdered a) : ∀ e ∈ a.stepOrder.toList, (stepEntry a e).isSome := by
  rintro ⟨n, k⟩ he
  rw [stepEntry, Option.isSome_map]
  exact Table.mem_iff_getElem?_isSome.mp (ho.steps.stored n k (Table.mem_toList.mp he))

/-- The sequence that a first page fixes as its bound. -/
def currentSnapshot (collection : HistoryCollection) (a : RunAggregate) : ℕ :=
  match collection with
  | .events => a.events.length
  | .steps => lastSequence a.stepOrder
  | .attempts => lastSequence a.attemptOrder

theorem currentSnapshot_eq (ho : HistoryOrdered a) (collection : HistoryCollection) :
    currentSnapshot collection a = (historyEntries collection a).length := by
  cases collection with
  | events => simp [currentSnapshot, historyEntries]
  | steps =>
    show lastSequence a.stepOrder = (a.stepOrder.toList.filterMap (stepEntry a)).length
    rw [length_filterMap (stepEntry_isSome ho), lastSequence_eq ho.steps]
  | attempts =>
    show lastSequence a.attemptOrder = (a.attemptOrder.toList.map _).length
    rw [List.length_map, lastSequence_eq ho.attempts]

theorem historyPage_ok {collection : HistoryCollection} {page : StoreReadPage} {snapshot last : ℕ}
    (ha : s.runs[(ownerId, runId)]? = some a) (ho : HistoryOrdered a) (hk : HistoryKeyed runId a)
    (hbatch : collection = .events → IsBatch 1 (a.events.take snapshot))
    (hw : readWindow digests cursorKey ownerId runId collection (currentSnapshot collection a) page = .ok (snapshot, last)) :
    ∃ next, historyPage digests cursorKey ownerId runId collection s page.cursor page.limit =
        .ok ((((historyEntries collection a).take snapshot).drop last).take page.limit, next) ∧
      BehindPage digests cursorKey ownerId runId collection snapshot last page.limit next := by
  have hpage : StoreReadPage.new page.cursor page.limit = .ok page := dif_pos page.valid
  have hs := (readWindow_eq_ok hw).1
  rw [currentSnapshot_eq ho] at hs
  unfold historyPage
  rw [hpage]
  cases collection with
  | events =>
    obtain ⟨next, hread, hbehind⟩ := replayEvents_window ha (hbatch rfl) hw
    refine ⟨next, ?_, hbehind⟩
    show (replayEvents digests cursorKey ownerId runId page s >>= _) = _
    rw [hread, historyEntries, ← List.map_take, ← List.map_drop, ← List.map_take]
    rfl
  | steps =>
    obtain ⟨next, hread, hbehind⟩ := loadStepsPage_window ha ho.steps hw
      (by rwa [historyEntries, length_filterMap (stepEntry_isSome ho)] at hs)
    refine ⟨next, ?_, hbehind⟩
    have hitems : (((orderRange a.stepOrder last snapshot).take page.limit).filterMap fun e => a.steps[e.2]?).map .step =
        (((historyEntries .steps a).take snapshot).drop last).take page.limit := by
      have hin := stepEntry_isSome ho
      have htake : ∀ e ∈ a.stepOrder.toList.take snapshot, (stepEntry a e).isSome :=
        fun e he => hin e (List.mem_of_mem_take he)
      have hdrop : ∀ e ∈ (a.stepOrder.toList.take snapshot).drop last, (stepEntry a e).isSome :=
        fun e he => htake e (List.mem_of_mem_drop he)
      rw [List.map_filterMap, orderRange_eq ho.steps]
      show (((a.stepOrder.toList.take snapshot).drop last).take page.limit).filterMap (stepEntry a) = _
      rw [filterMap_take hdrop, filterMap_drop htake, filterMap_take hin]
      rfl
    show (loadStepsPage digests cursorKey ownerId runId page s >>= _) = _
    rw [hread, ← hitems]
    rfl
  | attempts =>
    obtain ⟨next, hread, hbehind⟩ := loadAttemptsPage_window ha ho.attempts hw
      (by rwa [historyEntries, List.length_map] at hs)
    refine ⟨next, ?_, hbehind⟩
    have hitems : (((orderRange a.attemptOrder last snapshot).take page.limit).filterMap fun e =>
        a.attempts[e.2]?).map (fun r => HistoryEntry.attempt r.key) =
          (((historyEntries .attempts a).take snapshot).drop last).take page.limit := by
      have hkey : ∀ e ∈ (orderRange a.attemptOrder last snapshot).take page.limit,
          (a.attempts[e.2]?).map (fun r => HistoryEntry.attempt r.key) = some (.attempt e.2) := by
        intro e he
        obtain ⟨r, hr⟩ := Option.isSome_iff_exists.mp (window_stored ho.attempts last snapshot e (List.mem_of_mem_take he))
        rw [hr, Option.map_some, (hk.attempts _ r hr).1]
      rw [List.map_filterMap, List.filterMap_congr hkey, orderRange_eq ho.attempts]
      simp only [historyEntries, List.filterMap_eq_map', List.map_take, List.map_drop]
    show (loadAttemptsPage digests cursorKey ownerId runId page s >>= _) = _
    rw [hread, ← hitems]
    rfl

/-! ## Growth -/

/-- The history of a later aggregate of the same run: nothing is renumbered, no step and no event is lost. -/
structure HistoryExtends (a a' : RunAggregate) : Prop where
  stepOrder : ∀ (n : ℕ) k, a.stepOrder[n]? = some k → a'.stepOrder[n]? = some k
  attemptOrder : ∀ (n : ℕ) k, a.attemptOrder[n]? = some k → a'.attemptOrder[n]? = some k
  steps : ∀ (id : String) step, a.steps[id]? = some step → a'.steps[id]? = some step
  events : a.events <+: a'.events

theorem historyExtends_commit (b : Built digests s ownerId commit nowMs patch) (ho : HistoryOrdered b.aggregate)
    (h : HistoryExtends a b.aggregate) : HistoryExtends a (b.aggregate.patched patch) := by
  refine ⟨?_, ?_, ?_, ?_⟩
  · intro n k hk
    rw [b.stepOrder_after]
    refine ho.steps.keep b.stepLoop.numbered ?_ n k (h.stepOrder n k hk)
    intro k n step hp hmem
    exact absurd hmem (b.stepLoop.patched k n step hp).2.2
  · intro n k hk
    rw [b.attemptOrder_after]
    exact ho.attempts.keep b.attemptLoop.numbered b.attempt_placed n k (h.attemptOrder n k hk)
  · intro id step hstep
    exact b.step_kept (h.steps id step hstep)
  · rw [b.events_after]
    exact h.events.trans (List.prefix_append _ _)

theorem historyExtends_of_reaches {allowed : State → Op → Prop} {s' : State} (h : Reaches (step digests) allowed s s')
    {k : Uuid × Uuid} (ha : s.runs[k]? = some a) (ho : HistoryOrdered a) :
    ∃ a', s'.runs[k]? = some a' ∧ HistoryOrdered a' ∧ HistoryExtends a a' := by
  refine run_kept (P := fun a' => HistoryOrdered a' ∧ HistoryExtends a a') h ?_ ?_ ha
    ⟨ho, fun _ _ hk => hk, fun _ _ hk => hk, fun _ _ hk => hk, List.prefix_rfl⟩
  · rintro a' lease ⟨ho', he⟩
    exact ⟨⟨ho'.steps, ho'.attempts, ho'.fits⟩, ⟨he.stepOrder, he.attemptOrder, he.steps, he.events⟩⟩
  · rintro s ownerId commit nowMs patch b ⟨ho', he⟩
    exact ⟨historyOrdered_commit b ho', historyExtends_commit b ho' he⟩

theorem HistoryExtends.entries {a' : RunAggregate} (h : HistoryExtends a a') (ho : HistoryOrdered a)
    (ho' : HistoryOrdered a') (collection : HistoryCollection) :
    historyEntries collection a <+: historyEntries collection a' := by
  cases collection with
  | events => exact h.events.map _
  | steps =>
    have hsame : a.stepOrder.toList.filterMap (stepEntry a) = a.stepOrder.toList.filterMap (stepEntry a') := by
      refine List.filterMap_congr ?_
      rintro ⟨n, k⟩ he
      have hk := Table.mem_iff_getElem?_isSome.mp (ho.steps.stored n k (Table.mem_toList.mp he))
      obtain ⟨step, hstep⟩ := Option.isSome_iff_exists.mp hk
      rw [stepEntry, stepEntry, hstep, h.steps k step hstep]
    show a.stepOrder.toList.filterMap _ <+: _
    rw [hsame]
    exact (ho.steps.prefix_toList ho'.steps h.stepOrder).filterMap _
  | attempts => exact (ho.attempts.prefix_toList ho'.attempts h.attemptOrder).map _

theorem length_historyEntries_lt (ho : HistoryOrdered a) (collection : HistoryCollection)
    (hbatch : collection = .events → IsBatch 1 a.events) : (historyEntries collection a).length < 2 ^ 64 := by
  cases collection with
  | events =>
    rw [historyEntries, List.length_map]
    by_cases hnil : a.events = []
    · simp [hnil]
    · have := (hbatch rfl).fits hnil
      omega
  | steps =>
    have := ho.fits.1
    rw [historyEntries, length_filterMap (stepEntry_isSome ho), Std.ExtTreeMap.length_toList, ho.steps.size_eq]
    omega
  | attempts =>
    have := ho.fits.2
    rw [historyEntries, List.length_map, Std.ExtTreeMap.length_toList, ho.attempts.size_eq]
    omega

/-! ## Whole reads -/

section Read

variable {collection : HistoryCollection}

/-- The cursor stands behind the first `n` entries of the read that started in `s₀` with `a₀`. -/
def CursorAt (digests : Digests) (cursorKey : BitVec 128) (ownerId runId : Uuid) (collection : HistoryCollection)
    (s₀ : State) (a₀ : RunAggregate) (s : State) (cursor : Option StoreReadCursor) (n : ℕ) : Prop :=
  match cursor with
  | none => s = s₀ ∧ n = 0
  | some c => Reaches (step digests) anyInput s₀ s ∧ n < (historyEntries collection a₀).length ∧
      decodeCursor digests cursorKey c =
        .ok { ownerId, runId, collection, snapshot := (historyEntries collection a₀).length, last := n }

theorem readWindow_cursorAt {s₀ : State} {a₀ a' : RunAggregate} (page : StoreReadPage) {n : ℕ}
    (hat : CursorAt digests cursorKey ownerId runId collection s₀ a₀ s page.cursor n)
    (hlen : (historyEntries collection a₀).length ≤ currentSnapshot collection a')
    (hfirst : s = s₀ → a' = a₀) (ho : HistoryOrdered a₀) :
    readWindow digests cursorKey ownerId runId collection (currentSnapshot collection a') page =
      .ok ((historyEntries collection a₀).length, n) := by
  cases hcursor : page.cursor with
  | none =>
    rw [hcursor] at hat
    obtain ⟨rfl, rfl⟩ := hat
    rw [readWindow, hcursor, hfirst rfl, currentSnapshot_eq ho]
  | some c =>
    rw [hcursor] at hat
    obtain ⟨_, hn, hdecode⟩ := hat
    exact readWindow_issued hcursor hdecode hn hlen

theorem pages_history {s₀ : State} {a₀ : RunAggregate} (h : Reaches (step digests) anyInput State.empty s₀)
    (ha : s₀.runs[(ownerId, runId)]? = some a₀) (hbatch : collection = .events → IsBatch 1 a₀.events) :
    Pages (step digests) (historyPage digests cursorKey ownerId runId collection) (fun limit => 1 ≤ limit ∧ limit ≤ 256)
      (historyEntries collection a₀) (CursorAt digests cursorKey ownerId runId collection s₀ a₀) := by
  have ho := historyOrdered_of_reaches h ha
  have hfits := length_historyEntries_lt ho collection hbatch
  refine ⟨fun limit hl => hl.1, ?_⟩
  intro s cursor n limit hat hlimit
  have hreach : Reaches (step digests) anyInput s₀ s := by
    cases cursor with
    | none => exact hat.1 ▸ .start
    | some c => exact hat.1
  obtain ⟨a', ha', ho', hext⟩ := historyExtends_of_reaches hreach ha ho
  have hfirst : s = s₀ → a' = a₀ := by
    rintro rfl
    rw [ha] at ha'
    exact (Option.some.inj ha').symm
  obtain ⟨rest, hgrown⟩ := hext.entries ho ho' collection
  have hlen : (historyEntries collection a₀).length ≤ currentSnapshot collection a' := by
    rw [currentSnapshot_eq ho', ← hgrown, List.length_append]
    omega
  -- the window of the first page, read in the later state
  have hvalid : limit ≠ 0 ∧ limit ≤ maxStoreReadPageSize := ⟨by omega, hlimit.2⟩
  have hwin := readWindow_cursorAt { cursor, limit, valid := hvalid } hat hlen hfirst ho
  have hlog : collection = .events → IsBatch 1 (a'.events.take (historyEntries collection a₀).length) := by
    rintro rfl
    obtain ⟨more, hmore⟩ := hext.events
    rw [historyEntries, List.length_map, ← hmore, List.take_left]
    exact hbatch rfl
  obtain ⟨next, hread, hbehind⟩ := historyPage_ok ha' ho' (historyKeyed_of_reaches (h.trans hreach) ha') hlog hwin
  rw [← hgrown, List.take_left] at hread
  refine ⟨next, hread, ?_, ?_⟩
  · obtain ⟨hnone, hlast⟩ | ⟨c, hsome, hmore, _⟩ := hbehind
    · exact ⟨fun _ => hlast, fun _ => hnone⟩
    · dsimp only at hmore
      rw [hsome]
      simp
      omega
  · rintro c rfl inputs
    obtain ⟨hnone, _⟩ | ⟨c', hsome, hmore, hwritten⟩ := hbehind
    · cases hnone
    · cases hsome
      dsimp only at hmore
      exact ⟨hreach.trans (reaches_run inputs), hmore,
        decodeCursor_writeCursor hwritten hfits (by dsimp only; omega)⟩

end Read

/-! ## Entries of a state -/

theorem nodup_historyEntries (ho : HistoryOrdered a) (hk : HistoryKeyed runId a) (collection : HistoryCollection)
    (hbatch : collection = .events → IsBatch 1 a.events) : (historyEntries collection a).Nodup := by
  -- the keys of an order are distinct
  have hkeys : ∀ {κ ν : Type} [Ord κ] [Std.TransOrd κ] {order : Table ℕ κ} {t : Table κ ν} {next : ℕ},
      Ordered order t next → order.toList.Pairwise fun e e' => e.2 ≠ e'.2 := by
    intro κ ν _ _ order t next ho
    refine (Std.ExtTreeMap.ordered_keys_toList (t := order)).imp_of_mem ?_
    rintro ⟨n, k⟩ ⟨n', k'⟩ he he' hlt hsame
    dsimp only at hsame
    subst hsame
    exact (Nat.compare_eq_lt.mp hlt).ne (ho.once n n' k (Table.mem_toList.mp he) (Table.mem_toList.mp he'))
  cases collection with
  | events =>
    refine List.Nodup.map (fun e e' h => by cases h; rfl) ?_
    exact (hbatch rfl).ids.of_map
  | steps =>
    refine (hkeys ho.steps).filterMap _ ?_
    rintro ⟨n, k⟩ ⟨n', k'⟩ hne e he e' he' rfl
    simp only [stepEntry, Option.map_eq_some_iff] at he he'
    obtain ⟨step, hstep, rfl⟩ := he
    obtain ⟨step', hstep', heq⟩ := he'
    cases heq
    exact hne ((hk.steps k _ hstep).1.symm.trans (hk.steps k' _ hstep').1)
  | attempts =>
    refine List.pairwise_map.mpr ((hkeys ho.attempts).imp ?_)
    intro e e' hne heq
    exact hne (HistoryEntry.attempt.inj heq)

theorem mem_historyEntries (ho : HistoryOrdered a) (hk : HistoryKeyed runId a) (collection : HistoryCollection)
    (entry : HistoryEntry) : entry ∈ historyEntries collection a ↔ entry.IsStored collection a := by
  cases collection with
  | events => cases entry <;> simp [historyEntries, HistoryEntry.IsStored]
  | steps =>
    simp only [historyEntries, List.mem_filterMap, Prod.exists, stepEntry, Option.map_eq_some_iff, Table.mem_toList]
    constructor
    · rintro ⟨_, id, _, step, hstep, rfl⟩
      refine ⟨rfl, ?_⟩
      rw [(hk.steps id step hstep).1]
      exact hstep
    · intro hstored
      cases entry with
      | event | attempt => cases hstored.1
      | step step =>
        obtain ⟨n, hn⟩ := ho.steps.placed _ (Table.mem_of_getElem? hstored.2)
        exact ⟨n, _, hn, step, hstored.2, rfl⟩
  | attempts =>
    simp only [historyEntries, List.mem_map]
    constructor
    · rintro ⟨⟨n, key⟩, he, rfl⟩
      exact ⟨rfl, ho.attempts.stored n key (Table.mem_toList.mp he)⟩
    · intro hstored
      cases entry with
      | event | step => cases hstored.1
      | attempt key =>
        obtain ⟨n, hn⟩ := ho.attempts.placed key hstored.2
        exact ⟨(n, key), Table.mem_toList.mpr hn, rfl⟩

/-! ## Foreign cursors -/

theorem nextHistoryCursor_written {collection : HistoryCollection} {snapshot : ℕ} {last : Option ℕ} {more : Bool}
    {next : StoreReadCursor}
    (h : nextHistoryCursor digests cursorKey ownerId runId collection snapshot last more = .ok (some next)) :
    ∃ last, writeCursor digests cursorKey { ownerId, runId, collection, snapshot, last } = .ok next := by
  unfold nextHistoryCursor at h
  split_ifs at h
  · simp only [bind_eq_ok] at h
    obtain ⟨last, _, cursor, hwritten, hret⟩ := h
    cases hret
    exact ⟨last, hwritten⟩
  · cases h

theorem storeHistoryPage_new_eq_ok {α : Type} {items : List α} {next : Option StoreReadCursor} {p : StoreHistoryPage α}
    (h : StoreHistoryPage.new items next = .ok p) : p.nextCursor = next := by
  unfold StoreHistoryPage.new at h
  split_ifs at h
  cases h
  rfl

theorem historyPage_cursor {collection : HistoryCollection} {cursor : Option StoreReadCursor} {limit : ℕ}
    {entries : List HistoryEntry} {next : StoreReadCursor}
    (h : historyPage digests cursorKey ownerId runId collection s cursor limit = .ok (entries, some next)) :
    ∃ snapshot last, writeCursor digests cursorKey { ownerId, runId, collection, snapshot, last } = .ok next := by
  simp only [historyPage, bind_eq_ok] at h
  obtain ⟨page, _, h⟩ := h
  cases collection with
  | events =>
    simp only [replayEvents, EventReplayPage.new, bind_eq_ok, Prod.exists] at h
    obtain ⟨p, ⟨_, _, snapshot, _, _, next', hnext, _, _, _, _, hp⟩, hret⟩ := h
    cases hp
    cases hret
    simp only [nextEventCursor] at hnext
    split_ifs at hnext
    · simp only [bind_eq_ok] at hnext
      obtain ⟨last, _, cursor, hwritten, hret⟩ := hnext
      cases hret
      exact ⟨snapshot, last, hwritten⟩
    · cases hnext
  | steps =>
    simp only [loadStepsPage, bind_eq_ok, Prod.exists] at h
    obtain ⟨p, ⟨_, _, snapshot, _, _, _, _, next', hnext, hp⟩, hret⟩ := h
    have hcursor : p.nextCursor = some next := congrArg (·.2) (Except.ok.inj hret)
    rw [← storeHistoryPage_new_eq_ok hp, hcursor] at hnext
    exact ⟨snapshot, nextHistoryCursor_written hnext⟩
  | attempts =>
    simp only [loadAttemptsPage, bind_eq_ok, Prod.exists] at h
    obtain ⟨p, ⟨_, _, snapshot, _, _, next', hnext, _, _, hp⟩, hret⟩ := h
    have hcursor : p.nextCursor = some next := congrArg (·.2) (Except.ok.inj hret)
    rw [← storeHistoryPage_new_eq_ok hp, hcursor] at hnext
    exact ⟨snapshot, nextHistoryCursor_written hnext⟩

theorem historyPage_foreign {collection : HistoryCollection} {c : CursorFields} {cursor : StoreReadCursor} {limit : ℕ}
    (hlimit : 1 ≤ limit ∧ limit ≤ 256) (hwritten : writeCursor digests cursorKey c = .ok cursor)
    (hne : (c.ownerId, c.runId, c.collection) ≠ (ownerId, runId, collection)) (s : State) :
    historyPage digests cursorKey ownerId runId collection s (some cursor) limit =
      .error (if (ownerId, runId) ∈ s.runs then .invalidRequest else .notFound) := by
  have hvalid : limit ≠ 0 ∧ limit ≤ maxStoreReadPageSize := ⟨by omega, hlimit.2⟩
  have hpage : StoreReadPage.new (some cursor) limit = .ok { cursor := some cursor, limit, valid := hvalid } :=
    dif_pos hvalid
  obtain ⟨snapshot, last, hdecode⟩ := decodeCursor_scope hwritten
  have hwin : ∀ n, readWindow digests cursorKey ownerId runId collection n
      { cursor := some cursor, limit, valid := hvalid } = .error .invalidRequest := by
    intro n
    simp only [readWindow, bind_eq_error, ensure_eq_error]
    refine .inr ⟨_, hdecode, .inl ⟨?_, trivial⟩⟩
    rintro ⟨ho, hr, hc, _⟩
    exact hne (by rw [ho, hr, hc])
  simp only [historyPage, bind_eq_error]
  refine .inr ⟨_, hpage, ?_⟩
  cases hrun : s.runs[(ownerId, runId)]? with
  | none =>
    rw [if_neg (Table.not_mem_iff_getElem?_eq_none.mpr hrun)]
    cases collection with
    | events | steps | attempts =>
      simp only [replayEvents, loadStepsPage, loadAttemptsPage, hrun]
      rfl
  | some a =>
    rw [if_pos (Table.mem_of_getElem? hrun)]
    cases collection with
    | events | steps | attempts =>
      simp only [replayEvents, loadStepsPage, loadAttemptsPage, hrun, okOr, bind_eq_error]
      exact .inl (.inr ⟨a, rfl, .inl (hwin _)⟩)

/-- **Paging is lossless under concurrent commits.**  A read of a history collection that starts without a cursor and
follows the cursors it is given, with any limits and with any calls between its pages, gives a first part of the entries
that the collection had at the first page, all of them once there is no further cursor, and there is none after more
pages than there are entries.  These entries are what the run has stored, each once, and they stay at the front of every
later list of entries.  A cursor of another owner, run or collection is rejected. -/
theorem history_paging_lossless (digests : Digests) (cursorKey : BitVec 128) (s : State)
    (h : Reaches (step digests) anyInput State.empty s) (ownerId runId : Uuid) (collection : HistoryCollection)
    (a : RunAggregate) (ha : s.runs[(ownerId, runId)]? = some a)
    (hbatch : collection = .events → validateBatch 1 a.events = .ok ()) :
    (∀ plan : List (ℕ × List Op), (∀ turn ∈ plan, 1 ≤ turn.1 ∧ turn.1 ≤ 256) →
      ∃ items done, readAll (step digests) (historyPage digests cursorKey ownerId runId collection) plan s none =
          .ok (items, done) ∧
        items <+: historyEntries collection a ∧ (done = true → items = historyEntries collection a) ∧
        ((historyEntries collection a).length < plan.length → done = true)) ∧
    (historyEntries collection a).Nodup ∧
    (∀ entry, entry ∈ historyEntries collection a ↔ entry.IsStored collection a) ∧
    (∀ ops, ∃ a', (run (step digests) s ops).runs[(ownerId, runId)]? = some a' ∧
      historyEntries collection a <+: historyEntries collection a') ∧
    ∀ (ownerId' runId' : Uuid) (collection' : HistoryCollection) (s' : State) (page : Option StoreReadCursor)
      (limit : ℕ) (items : List HistoryEntry) (cursor : StoreReadCursor),
      historyPage digests cursorKey ownerId' runId' collection' s' page limit = .ok (items, some cursor) →
      (ownerId', runId', collection') ≠ (ownerId, runId, collection) →
      ∀ (s'' : State) (limit' : ℕ), 1 ≤ limit' ∧ limit' ≤ 256 →
        historyPage digests cursorKey ownerId runId collection s'' (some cursor) limit' =
          .error (if (ownerId, runId) ∈ s''.runs then .invalidRequest else .notFound) := by
  have ho := historyOrdered_of_reaches h ha
  have hlog : collection = .events → IsBatch 1 a.events := fun hc => validateBatch_eq_ok.mp (hbatch hc)
  have hk := historyKeyed_of_reaches h ha
  refine ⟨?_, nodup_historyEntries ho hk collection hlog, mem_historyEntries ho hk collection, ?_, ?_⟩
  · intro plan hplan
    have hstart : CursorAt digests cursorKey ownerId runId collection s a s none 0 := ⟨rfl, rfl⟩
    simpa using (pages_history h ha hlog).readAll_eq plan hplan hstart
  · intro ops
    obtain ⟨a', ha', ho', hext⟩ := historyExtends_of_reaches (@reaches_run _ _ (step digests) s ops) ha ho
    exact ⟨a', ha', hext.entries ho ho' collection⟩
  · intro ownerId' runId' collection' s' page limit items cursor hissued hne s'' limit' hlimit
    obtain ⟨snapshot, last, hwritten⟩ := historyPage_cursor hissued
    exact historyPage_foreign hlimit hwritten hne s''

/-- The log of the sample run, read in two turns with a call between them. -/
theorem sample_log_paged :
    readAll (step Sample.digests) (historyPage Sample.digests 5#128 Sample.ownerId Sample.runId .events)
      [(1, [Sample.acquireLease]), (256, [])] Sample.logged none = .ok ([.event (Sample.event 1 11#128)], true) := by
  have hlog : (Sample.logged.runs[(Sample.ownerId, Sample.runId)]?.any fun a =>
      a.events == [Sample.event 1 11#128]) = true := by decide +kernel
  obtain ⟨a, ha, hevents⟩ := (Option.any_eq_true _ _).mp hlog
  have hentries : a.events = [Sample.event 1 11#128] := beq_iff_eq.mp hevents
  have hbatch : validateBatch 1 a.events = .ok () := by
    rw [hentries]
    decide +kernel
  obtain ⟨items, done, hread, _, hdone, hlong⟩ := (history_paging_lossless Sample.digests 5#128 Sample.logged
    (reaches_run _) Sample.ownerId Sample.runId .events a ha fun _ => hbatch).1
      [(1, [Sample.acquireLease]), (256, [])] (by simp)
  have hend : done = true := hlong (by simp [historyEntries, hentries])
  rw [hread, hend, hdone hend, historyEntries, hentries]
  rfl

end AnimaCore
