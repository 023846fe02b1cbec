import AnimaCore.Execution.History
import AnimaCore.Execution.Replay
import AnimaCore.Execution.Sessions
import AnimaCore.Lib.Paging

/-!
# AnimaCore.Execution.EventLog — the event history of a run and its replay

A commit checks its events as a batch of their own that starts at the next sequence.  The whole history is a batch as
well exactly if, besides, no identity comes back and no time runs backwards across commits (`ContinuesLog`), which the
commit does not check.
-/

namespace AnimaCore

open Lib RuntimeEvent

variable {digests : Digests} {s : State} {ownerId runId : Uuid} {commit : ExecutionCommit} {nowMs : ℕ}
  {patch : CommitPatch} {cursorKey : BitVec 128}

/-! ## The log -/

/-- The events of the commit have identities that are not stored and times that are not before the stored ones. -/
def ContinuesLog (a : RunAggregate) (commit : ExecutionCommit) : Prop :=
  ∀ e ∈ commit.events, e.eventId ∉ a.events.map (·.eventId) ∧ ∀ stored ∈ a.events, stored.timestampMs ≤ e.timestampMs

/-- The calls whose commits continue the log of their run. -/
def continuesLog (s : State) (op : Op) : Prop :=
  match op with
  | .commit ownerId commit _ => ∀ a, s.runs[(ownerId, commit.lease.runId)]? = some a → ContinuesLog a commit
  | _ => True

theorem Built.events_eq (b : Built digests s ownerId commit nowMs patch) :
    IsBatch (1 + b.aggregate.events.length) commit.events ∧
      ∀ e ∈ commit.events, e.scope = (b.session.ownerId, b.aggregate.stored.run.sessionId, commit.lease.runId) := by
  have h := b.events
  simp only [checkEvents, bind_eq_ok, okOr_eq_ok, ensure_eq_ok, checkedAdd_eq_some, validateBatch_eq_ok] at h
  obtain ⟨_, ⟨_, rfl⟩, _, _, _, hbatch, session, _, _, hscope, h⟩ := h
  cases h
  refine ⟨by rwa [Nat.add_comm], ?_⟩
  intro e he
  obtain ⟨ho, hr, hsid⟩ := hscope e he
  rw [scope, ho, hr, hsid]

structure LogExact (ownerId runId : Uuid) (a : RunAggregate) : Prop where
  batch : IsBatch 1 a.events
  scope : ∀ e ∈ a.events, e.scope = (ownerId, a.stored.run.sessionId, runId)

theorem Built.events_scope (b : Built digests s ownerId commit nowMs patch) (h : SessionsBound s) (e : RuntimeEvent)
    (he : e ∈ commit.events) : e.scope = (ownerId, b.aggregate.stored.run.sessionId, commit.lease.runId) := by
  rw [b.events_eq.2 e he, (h.keyed _ _ b.session_eq).2.2.2]

theorem isBatch_commit (b : Built digests s ownerId commit nowMs patch) (hs : SessionsBound s)
    (hscope : ∀ e ∈ b.aggregate.events, e.scope = (ownerId, b.aggregate.stored.run.sessionId, commit.lease.runId)) :
    IsBatch 1 (b.aggregate.patched patch).events ↔ IsBatch 1 b.aggregate.events ∧ ContinuesLog b.aggregate commit := by
  rw [b.events_after, isBatch_append]
  constructor
  · rintro ⟨hold, _, hids, htimes⟩
    exact ⟨hold, fun e he => ⟨hids e he, fun stored hst => (htimes stored hst e he).1⟩⟩
  · rintro ⟨hold, hcont⟩
    refine ⟨hold, b.events_eq.1, fun e he => (hcont e he).1, ?_⟩
    intro stored hst e he
    exact ⟨(hcont e he).2 stored hst, (hscope stored hst).trans (b.events_scope hs e he).symm⟩

theorem logExact_commit (b : Built digests s ownerId commit nowMs patch) (hs : SessionsBound s)
    (h : LogExact ownerId commit.lease.runId b.aggregate) (hcont : ContinuesLog b.aggregate commit) :
    LogExact ownerId commit.lease.runId (b.aggregate.patched patch) := by
  refine ⟨(isBatch_commit b hs h.scope).mpr ⟨h.batch, hcont⟩, ?_⟩
  intro e he
  rw [RunAggregate.patched_stored, b.stored_run, ← b.same_run.2.1]
  rw [b.events_after, List.mem_append] at he
  obtain he | he := he
  · exact h.scope e he
  · exact b.events_scope hs e he

theorem logExact_of_reaches (h : Reaches (step digests) continuesLog State.empty s) {a : RunAggregate}
    (ha : s.runs[(ownerId, runId)]? = some a) : LogExact ownerId runId a := by
  refine runs_invariant (P := LogExact) h ?_ (fun _ _ _ _ hk _ _ => ⟨hk.batch, hk.scope⟩) ?_ ha
  · intro _ _ stored _ _ _ _
    exact ⟨isBatch_nil 1, by simp [RunAggregate.fresh]⟩
  · intro s ownerId commit nowMs patch b hr hal _ hlog
    exact logExact_commit b (sessionsBound_of_reaches hr) hlog (hal _ b.found)

/-! ## Replay -/

/-- The page that `replay_events` cuts out of a log. -/
def cutPage (events : List RuntimeEvent) (snapshot last limit : ℕ) : List RuntimeEvent :=
  let taken := ((events.take snapshot).drop last).take (limit + 1)
  if decide (limit < taken.length) then taken.dropLast else taken

def moreBehind (events : List RuntimeEvent) (snapshot last limit : ℕ) : Bool :=
  decide (limit < (((events.take snapshot).drop last).take (limit + 1)).length)

theorem cutPage_eq (events : List RuntimeEvent) (snapshot last limit : ℕ) :
    cutPage events snapshot last limit = ((events.take snapshot).drop last).take limit := by
  simp only [cutPage, decide_eq_true_eq]
  exact take_of_one_more limit _

theorem moreBehind_eq {events : List RuntimeEvent} {snapshot : ℕ} (last limit : ℕ) (hs : snapshot ≤ events.length) :
    moreBehind events snapshot last limit = decide (last + limit < snapshot) := by
  rw [moreBehind, decide_eq_decide, one_more_iff, List.length_drop, List.length_take_of_le hs]
  omega

/-- The cursor behind a page that starts behind `last`, inside a window up to `snapshot`. -/
def BehindPage (digests : Digests) (cursorKey : BitVec 128) (ownerId runId : Uuid) (collection : HistoryCollection)
    (snapshot last limit : ℕ) (next : Option StoreReadCursor) : Prop :=
  (next = none ∧ snapshot ≤ last + limit) ∨
    ∃ cursor, next = some cursor ∧ last + limit < snapshot ∧
      writeCursor digests cursorKey { ownerId, runId, collection, snapshot, last := last + limit } = .ok cursor

theorem readWindow_eq_ok {collection : HistoryCollection} {currentSnapshot snapshot last : ℕ} {page : StoreReadPage}
    (h : readWindow digests cursorKey ownerId runId collection currentSnapshot page = .ok (snapshot, last)) :
    snapshot ≤ currentSnapshot ∧ last ≤ snapshot := by
  unfold readWindow at h
  split at h
  · cases h
    exact ⟨le_rfl, Nat.zero_le _⟩
  · simp only [bind_eq_ok, ensure_eq_ok] at h
    obtain ⟨c, _, _, ⟨_, _, _, hs, hl⟩, h⟩ := h
    cases h
    exact ⟨hs, hl.le⟩

theorem replayEvents_eq {page : StoreReadPage} {a : RunAggregate} (ha : s.runs[(ownerId, runId)]? = some a) :
    replayEvents digests cursorKey ownerId runId page s = (do
      let (snapshot, last) ← readWindow digests cursorKey ownerId runId .events a.events.length page
      let nextCursor ← nextEventCursor digests cursorKey ownerId runId snapshot
        (cutPage a.events snapshot last page.limit) (moreBehind a.events snapshot last page.limit)
      EventReplayPage.new (cutPage a.events snapshot last page.limit) nextCursor) := by
  simp only [replayEvents, ha, okOr]
  rfl

theorem replayEvents_window {page : StoreReadPage} {a : RunAggregate} {snapshot last : ℕ}
    (ha : s.runs[(ownerId, runId)]? = some a) (h : IsBatch 1 (a.events.take snapshot))
    (hw : readWindow digests cursorKey ownerId runId .events a.events.length page = .ok (snapshot, last)) :
    ∃ next, replayEvents digests cursorKey ownerId runId page s =
        .ok { events := ((a.events.take snapshot).drop last).take page.limit, nextCursor := next } ∧
      BehindPage digests cursorKey ownerId runId .events snapshot last page.limit next := by
  obtain ⟨hs, hl⟩ := readWindow_eq_ok hw
  have hlimit := page.valid
  have hlast : last ≤ (a.events.take snapshot).length := by rwa [List.length_take_of_le hs]
  have hbatch := h.stretch page.limit last hlast
  have hlen : (((a.events.take snapshot).drop last).take page.limit).length = min page.limit (snapshot - last) := by
    rw [List.length_take, List.length_drop, List.length_take_of_le hs]
  rw [replayEvents_eq ha, hw]
  show ∃ next, (nextEventCursor digests cursorKey ownerId runId snapshot (cutPage a.events snapshot last page.limit)
    (moreBehind a.events snapshot last page.limit) >>= _) = _ ∧ _
  rw [cutPage_eq, moreBehind_eq last page.limit hs]
  generalize ((a.events.take snapshot).drop last).take page.limit = events at *
  -- the page itself passes
  have hnew : ∀ next : Option StoreReadCursor, (events = [] → next = none) →
      EventReplayPage.new events next = .ok { events, nextCursor := next } := by
    intro next hempty
    simp only [EventReplayPage.new, bind_eq_ok, ensure_eq_ok]
    refine ⟨(), ⟨by omega, ?_⟩, (), ?_, rfl⟩
    · rintro ⟨hnil, hsome⟩
      rw [hempty hnil] at hsome
      cases hsome
    · intro first hfirst
      rw [hbatch.sequence_of_head? hfirst, validateBatch_eq_ok]
      exact hbatch
  by_cases hbehind : last + page.limit < snapshot
  · have hne : events ≠ [] := by
      rw [← List.length_pos_iff]
      omega
    have hsequence : (events.getLast hne).sequence = last + page.limit := by
      rw [hbatch.sequence_of_getLast? (List.getLast?_eq_getLast_of_ne_nil hne)]
      omega
    obtain ⟨cursor, hcursor⟩ := writeCursor_ok digests cursorKey
      { ownerId, runId, collection := .events, snapshot, last := last + page.limit }
    refine ⟨some cursor, ?_, .inr ⟨cursor, rfl, hbehind, hcursor⟩⟩
    simp only [nextEventCursor, hbehind, decide_true, if_true, bind_eq_ok, okOr_eq_ok]
    refine ⟨some cursor, ⟨last + page.limit, ?_, cursor, hcursor, rfl⟩, hnew _ fun hnil => absurd hnil hne⟩
    rw [List.getLast?_eq_getLast_of_ne_nil hne, Option.map_some, hsequence]
  · refine ⟨none, ?_, .inl ⟨rfl, by omega⟩⟩
    simp only [nextEventCursor, hbehind, decide_false, Bool.false_eq_true, if_false, bind_eq_ok]
    exact ⟨none, rfl, hnew none fun _ => rfl⟩

theorem replayEvents_ok {page : StoreReadPage} {a : RunAggregate} {snapshot last : ℕ}
    (ha : s.runs[(ownerId, runId)]? = some a) (h : IsBatch 1 a.events)
    (hw : readWindow digests cursorKey ownerId runId .events a.events.length page = .ok (snapshot, last)) :
    ∃ p, replayEvents digests cursorKey ownerId runId page s = .ok p := by
  have hsnap : IsBatch 1 (a.events.take snapshot) := h.stretch snapshot 0 (Nat.zero_le _)
  obtain ⟨next, hread, _⟩ := replayEvents_window ha hsnap hw
  exact ⟨_, hread⟩

/-- The cursor was issued by a replay of the run's events in state `s`. -/
def Issued (digests : Digests) (cursorKey : BitVec 128) (ownerId runId : Uuid) (s : State) (cursor : StoreReadCursor) :
    Prop :=
  ∃ page p, replayEvents digests cursorKey ownerId runId page s = .ok p ∧ p.nextCursor = some cursor

theorem Issued.fields {cursor : StoreReadCursor} (hc : Issued digests cursorKey ownerId runId s cursor)
    {a : RunAggregate} (ha : s.runs[(ownerId, runId)]? = some a) (h : IsBatch 1 a.events) :
    ∃ snapshot last, decodeCursor digests cursorKey cursor =
        .ok { ownerId, runId, collection := .events, snapshot, last } ∧
      last < snapshot ∧ snapshot ≤ a.events.length := by
  obtain ⟨page, p, hp, hnext⟩ := hc
  obtain ⟨snapshot, last, hw⟩ : ∃ snapshot last,
      readWindow digests cursorKey ownerId runId .events a.events.length page = .ok (snapshot, last) := by
    simp only [replayEvents_eq ha, bind_eq_ok, Prod.exists] at hp
    obtain ⟨snapshot, last, hw, _⟩ := hp
    exact ⟨snapshot, last, hw⟩
  obtain ⟨hs, hl⟩ := readWindow_eq_ok hw
  have hsnap : IsBatch 1 (a.events.take snapshot) := h.stretch snapshot 0 (Nat.zero_le _)
  obtain ⟨next, hread, hbehind⟩ := replayEvents_window ha hsnap hw
  rw [hread] at hp
  cases hp
  obtain ⟨hnone, _⟩ | ⟨cursor', hsome, hmore, hwritten⟩ := hbehind
  · rw [hnone] at hnext
    cases hnext
  · rw [hsome] at hnext
    cases hnext
    have hne : a.events ≠ [] := by
      rintro hnil
      simp only [hnil, List.length_nil] at hs
      omega
    have hfits := h.fits hne
    exact ⟨snapshot, last + page.limit, decodeCursor_writeCursor hwritten (by dsimp only; omega) (by dsimp only; omega),
      hmore, hs⟩

theorem readWindow_issued {collection : HistoryCollection} {cursor : StoreReadCursor} {page : StoreReadPage}
    {snapshot last currentSnapshot : ℕ} (hpage : page.cursor = some cursor)
    (hc : decodeCursor digests cursorKey cursor = .ok { ownerId, runId, collection, snapshot, last })
    (hl : last < snapshot) (hs : snapshot ≤ currentSnapshot) :
    readWindow digests cursorKey ownerId runId collection currentSnapshot page = .ok (snapshot, last) := by
  simp only [readWindow, hpage, bind_eq_ok, ensure_eq_ok]
  exact ⟨_, hc, (), ⟨rfl, rfl, rfl, hs, hl⟩, rfl⟩

theorem events_grow {allowed : State → Op → Prop} {s' : State} (h : Reaches (step digests) allowed s s') {n : ℕ}
    {k : Uuid × Uuid} {a : RunAggregate} (ha : s.runs[k]? = some a) (hn : n ≤ a.events.length) :
    ∃ a', s'.runs[k]? = some a' ∧ n ≤ a'.events.length := by
  refine run_kept (P := fun a => n ≤ a.events.length) h (fun _ _ hk => hk) ?_ ha hn
  intro s ownerId commit nowMs patch b hk
  rw [b.events_after, List.length_append]
  omega

/-- **The whole event history is a valid replay batch**, in every run whose commits continue the log: it passes
`validate_batch` from sequence one, and it is replayed from the start and from every cursor that a replay in an
earlier state of the run has issued. -/
theorem event_log_replayable (digests : Digests) (s : State)
    (h : Reaches (step digests) continuesLog State.empty s) (ownerId runId : Uuid) (a : RunAggregate)
    (ha : s.runs[(ownerId, runId)]? = some a) :
    validateBatch 1 a.events = .ok () ∧
    ∀ (cursorKey : BitVec 128) (page : StoreReadPage),
      (∀ cursor, page.cursor = some cursor → ∃ s₀, Reaches (step digests) continuesLog State.empty s₀ ∧
        Reaches (step digests) continuesLog s₀ s ∧ Issued digests cursorKey ownerId runId s₀ cursor) →
      ∃ p, replayEvents digests cursorKey ownerId runId page s = .ok p := by
  have hbatch := (logExact_of_reaches h ha).batch
  refine ⟨validateBatch_eq_ok.mpr hbatch, ?_⟩
  intro cursorKey page hcursor
  cases hpage : page.cursor with
  | none => exact replayEvents_ok ha hbatch (by rw [readWindow, hpage])
  | some cursor =>
    obtain ⟨s₀, hs₀, hrun, hissued⟩ := hcursor cursor hpage
    -- the run was stored when the cursor was issued
    obtain ⟨a₀, ha₀⟩ : ∃ a₀, s₀.runs[(ownerId, runId)]? = some a₀ := by
      obtain ⟨_, _, hp, _⟩ := hissued
      simp only [replayEvents, bind_eq_ok, okOr_eq_ok] at hp
      obtain ⟨a₀, ha₀, _⟩ := hp
      exact ⟨a₀, ha₀⟩
    obtain ⟨snapshot, last, hc, hl, hs⟩ := hissued.fields ha₀ (logExact_of_reaches hs₀ ha₀).batch
    obtain ⟨_, hsame, hgrown⟩ := events_grow hrun ha₀ hs
    rw [ha] at hsame
    cases hsame
    exact replayEvents_ok ha hbatch (readWindow_issued hpage hc hl hgrown)

theorem sample_log_replayable :
    ∃ a, Sample.logged.runs[(Sample.ownerId, Sample.runId)]? = some a ∧ a.events = [Sample.event 1 11#128] ∧
      RuntimeEvent.validateBatch 1 a.events = .ok () := by
  have hstart : continuesLog (run (step Sample.digests) State.empty [Sample.createRun, Sample.acquireLease])
      (.commit Sample.ownerId { Sample.start with events := [Sample.event 1 11#128] } 10) := by
    have hempty : ((run (step Sample.digests) State.empty [Sample.createRun, Sample.acquireLease]).runs[(Sample.ownerId,
        Sample.runId)]?.all fun a => a.events == []) = true := by decide +kernel
    intro a ha e _
    have hnil := beq_iff_eq.mp ((Option.all_eq_true _ _).mp hempty a ha)
    simp [hnil]
  have hreach : Reaches (step Sample.digests) continuesLog State.empty Sample.logged :=
    ((Reaches.start.next Sample.createRun trivial).next Sample.acquireLease trivial).next _ hstart
  have hevents : (Sample.logged.runs[(Sample.ownerId, Sample.runId)]?.any fun a =>
      a.events == [Sample.event 1 11#128]) = true := by decide +kernel
  obtain ⟨a, ha, hevents⟩ := (Option.any_eq_true _ _).mp hevents
  exact ⟨a, ha, beq_iff_eq.mp hevents, (event_log_replayable Sample.digests _ hreach _ _ a ha).1⟩

/-- Two commits store an event each under one identity. -/
theorem repeated_event_id_stored :
    ¬∀ (digests : Digests) (s : State), Reaches (step digests) anyInput State.empty s →
      ∀ (ownerId runId : Uuid) (a : RunAggregate), s.runs[(ownerId, runId)]? = some a →
        RuntimeEvent.validateBatch 1 a.events = .ok () := by
  intro h
  have hbad : ((run (step Sample.digests) Sample.logged [.commit Sample.ownerId
      { Sample.commit 2 (Sample.command 102#128 (.recordProgress Sample.runId)) Sample.running with
        events := [Sample.event 2 11#128] } 20]).runs[(Sample.ownerId, Sample.runId)]?.any fun a =>
          !(RuntimeEvent.validateBatch 1 a.events).isOk) = true := by decide +kernel
  obtain ⟨a, ha, hbad⟩ := (Option.any_eq_true _ _).mp hbad
  rw [h Sample.digests _ ((reaches_run _).trans (reaches_run _)) _ _ a ha] at hbad
  cases hbad

end AnimaCore
