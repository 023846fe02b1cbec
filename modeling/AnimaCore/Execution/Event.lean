import AnimaCore.Execution.State

/-!
# AnimaCore.Execution.Event — runtime events and replay batches

`execution/event.rs`.  `RuntimeEvent.validateBatch` is the loop of the source; `validateBatch_eq_ok` says what a
batch that passes it is: consecutive sequences, distinct identities, ordered timestamps, one scope.
-/

namespace AnimaCore

open Lib

def runtimeEventSchemaVersion : ℕ := 1

inductive RuntimeEventKind
  | runQueued
  | runStarted
  | runWaitingForApproval
  | runPaused
  | runResumed
  | runCompleted
  | runFailed
  | runCancelled
  | modelStarted
  | modelCompleted
  | stepStarted
  | stepRetried
  | stepCompleted
  | stepFailed
  | capabilityProposed
  | capabilityApproved
  | capabilityDenied
  | invocationDispatchPrepared
  | capabilityStarted
  | capabilityCompleted
  | capabilityFailed
  | policyEvaluated
  | approvalRequested
  | approvalResolved
  | memoryRead
  | memoryProposed
  | memoryWritten
  | memorySuperseded
  | memoryForgotten
  | checkpointSaved
  | artifactRecorded
  | artifactProposed
  | artifactCreated
  | artifactUpdated
  | budgetUpdated
  | budgetExtensionRequested
  | budgetExhausted
  | usageRecorded
  | error
  deriving DecidableEq, Repr

inductive SafeEventPayload
  | none
  | reference (reference : Uuid)
  | error (code : ExecutionErrorCode) (reference : Option Uuid)
  deriving DecidableEq

def SafeEventPayload.validate : SafeEventPayload → ExecResult Unit
  | .reference handle => validUuid handle
  | .error _ (some handle) => validUuid handle
  | .none | .error _ Option.none => .ok ()

/-- The fields of `RuntimeEvent`. -/
structure RuntimeEventWire where
  schemaVersion : ℕ
  eventId : Uuid
  ownerId : Uuid
  sessionId : Uuid
  runId : Uuid
  timestampMs : ℕ
  sequence : ℕ
  kind : RuntimeEventKind
  payload : SafeEventPayload
  deriving DecidableEq

/-- The check of `RuntimeEvent::with_payload`. -/
def RuntimeEventWire.validate (e : RuntimeEventWire) : ExecResult Unit := do
  ensure (e.schemaVersion = runtimeEventSchemaVersion) .invalidEvent
  [e.eventId, e.ownerId, e.sessionId, e.runId].forM validUuid
  ensure (e.timestampMs ≠ 0 ∧ e.sequence ≠ 0) .invalidEvent
  e.payload.validate

structure RuntimeEvent extends RuntimeEventWire where
  valid : toRuntimeEventWire.validate = .ok ()
  deriving DecidableEq

def RuntimeEvent.scope (e : RuntimeEvent) : Uuid × Uuid × Uuid := (e.ownerId, e.sessionId, e.runId)

/-- The loop state of `validate_batch`. -/
structure BatchScan where
  expected : ℕ
  ids : List Uuid
  scope : Option (Uuid × Uuid × Uuid)
  priorTimestampMs : Option ℕ

namespace RuntimeEvent

/-- One event of the loop of `validate_batch`. -/
def batchStep (scan : BatchScan) (e : RuntimeEvent) : ExecResult BatchScan := do
  ensure (e.schemaVersion = runtimeEventSchemaVersion ∧ e.sequence = scan.expected ∧ e.timestampMs ≠ 0 ∧
    scan.priorTimestampMs.all (fun prior => decide (prior ≤ e.timestampMs)) = true ∧ e.eventId ∉ scan.ids)
    .invalidEvent
  ensure (scan.scope.all (fun x => x == e.scope) = true) .invalidEvent
  let expected ← okOr (checkedAdd 64 scan.expected 1) .arithmeticOverflow
  return { expected, ids := e.eventId :: scan.ids, scope := some e.scope, priorTimestampMs := some e.timestampMs }

def validateBatch (start : ℕ) (events : List RuntimeEvent) : ExecResult Unit := do
  let _ ← events.foldlM batchStep { expected := start, ids := [], scope := none, priorTimestampMs := none }
  return ()

/-! ## What a batch is -/

/-- Consecutive sequences from `start`, distinct identities, ordered times, one scope. -/
structure IsBatch (start : ℕ) (events : List RuntimeEvent) : Prop where
  sequences : events.map (·.sequence) = List.range' start events.length
  ids : (events.map (·.eventId)).Nodup
  times : events.Pairwise fun e e' => e.timestampMs ≤ e'.timestampMs
  scopes : events.Pairwise fun e e' => e.scope = e'.scope
  fits : events ≠ [] → start + events.length < 2 ^ 64

theorem isBatch_nil (start : ℕ) : IsBatch start [] := ⟨rfl, by simp, by simp, by simp, by simp⟩

theorem isBatch_append {start : ℕ} {l r : List RuntimeEvent} :
    IsBatch start (l ++ r) ↔ IsBatch start l ∧ IsBatch (start + l.length) r ∧
      (∀ e ∈ r, e.eventId ∉ l.map (·.eventId)) ∧ ∀ e ∈ l, ∀ e' ∈ r, e.timestampMs ≤ e'.timestampMs ∧ e.scope = e'.scope := by
  have hrange : (l ++ r).map (·.sequence) = List.range' start (l ++ r).length ↔
      l.map (·.sequence) = List.range' start l.length ∧ r.map (·.sequence) = List.range' (start + l.length) r.length := by
    rw [List.map_append, List.length_append, ← List.range'_append_1]
    exact ⟨fun h => List.append_inj h (by simp), fun ⟨hl, hr⟩ => by rw [hl, hr]⟩
  constructor
  · rintro ⟨hseq, hids, htimes, hscopes, hfits⟩
    obtain ⟨hl, hr⟩ := hrange.mp hseq
    rw [List.map_append, List.nodup_append] at hids
    obtain ⟨htl, htr, ht⟩ := List.pairwise_append.mp htimes
    obtain ⟨hsl, hsr, hs⟩ := List.pairwise_append.mp hscopes
    rw [List.length_append] at hfits
    refine ⟨⟨hl, hids.1, htl, hsl, fun hne => ?_⟩, ⟨hr, hids.2.1, htr, hsr, fun hne => ?_⟩, ?_, ?_⟩
    · have := hfits (by simp [hne])
      omega
    · have := hfits (by simp [hne])
      omega
    · intro e he hin
      exact hids.2.2 _ hin _ (List.mem_map_of_mem he) rfl
    · intro e he e' he'
      exact ⟨ht e he e' he', hs e he e' he'⟩
  · rintro ⟨hl, hr, hnew, hcross⟩
    refine ⟨hrange.mpr ⟨hl.sequences, hr.sequences⟩, ?_, ?_, ?_, ?_⟩
    · rw [List.map_append, List.nodup_append]
      refine ⟨hl.ids, hr.ids, ?_⟩
      rintro id hid id' hid' rfl
      obtain ⟨e, he, rfl⟩ := List.mem_map.mp hid'
      exact hnew e he hid
    · exact List.pairwise_append.mpr ⟨hl.times, hr.times, fun e he e' he' => (hcross e he e' he').1⟩
    · exact List.pairwise_append.mpr ⟨hl.scopes, hr.scopes, fun e he e' he' => (hcross e he e' he').2⟩
    · intro hne
      rw [List.length_append]
      by_cases hrn : r = []
      · have := hl.fits (by simpa [hrn] using hne)
        simpa [hrn] using this
      · have := hr.fits hrn
        omega

theorem IsBatch.stretch {start : ℕ} {events : List RuntimeEvent} (h : IsBatch start events) (m n : ℕ) (hn : n ≤ events.length) :
    IsBatch (start + n) ((events.drop n).take m) := by
  rw [← List.take_append_drop n events, isBatch_append, List.length_take_of_le hn] at h
  have hr := h.2.1
  rw [← List.take_append_drop m (events.drop n), isBatch_append] at hr
  exact hr.1

theorem IsBatch.sequence_of_head? {start : ℕ} {events : List RuntimeEvent} (h : IsBatch start events) {e : RuntimeEvent}
    (he : events.head? = some e) : e.sequence = start := by
  have hs := congrArg List.head? h.sequences
  rw [List.head?_map, he, List.head?_range', Option.map_some] at hs
  split_ifs at hs
  exact Option.some.inj hs

theorem IsBatch.sequence_of_getLast? {start : ℕ} {events : List RuntimeEvent} (h : IsBatch start events)
    {e : RuntimeEvent} (he : events.getLast? = some e) : e.sequence = start + events.length - 1 := by
  have hs := congrArg List.getLast? h.sequences
  rw [List.getLast?_map, he, List.getLast?_range', Option.map_some] at hs
  split_ifs at hs
  exact Option.some.inj hs

def scanOf (start : ℕ) (read : List RuntimeEvent) : BatchScan :=
  { expected := start + read.length, ids := (read.map (·.eventId)).reverse, scope := read.getLast?.map (·.scope)
    priorTimestampMs := read.getLast?.map (·.timestampMs) }

theorem IsBatch.last {start : ℕ} {events : List RuntimeEvent} (h : IsBatch start events) {e : RuntimeEvent}
    (he : e ∈ events) : ∃ last, events.getLast? = some last ∧ e.timestampMs ≤ last.timestampMs ∧ e.scope = last.scope := by
  have : Std.Refl fun e e' : RuntimeEvent => e.timestampMs ≤ e'.timestampMs := ⟨fun _ => le_rfl⟩
  have : Std.Refl fun e e' : RuntimeEvent => e.scope = e'.scope := ⟨fun _ => rfl⟩
  exact ⟨_, List.getLast?_eq_getLast_of_ne_nil _, h.times.rel_getLast he, h.scopes.rel_getLast he⟩

theorem batchStep_scanOf {start : ℕ} {read : List RuntimeEvent} {e : RuntimeEvent} {scan : BatchScan}
    (h : IsBatch start read) :
    batchStep (scanOf start read) e = .ok scan ↔ IsBatch start (read ++ [e]) ∧ scan = scanOf start (read ++ [e]) := by
  have hvalid := e.valid
  simp only [RuntimeEventWire.validate, bind_eq_ok, ensure_eq_ok] at hvalid
  obtain ⟨_, hschema, _, _, _, ⟨htime, _⟩, _⟩ := hvalid
  have hscan : scanOf start (read ++ [e]) =
      { expected := start + read.length + 1, ids := e.eventId :: (read.map (·.eventId)).reverse, scope := some e.scope
        priorTimestampMs := some e.timestampMs } := by
    simp [scanOf, Nat.add_assoc]
  simp only [batchStep, bind_eq_ok, ensure_eq_ok, okOr_eq_ok, checkedAdd_eq_some, hscan, isBatch_append]
  constructor
  · rintro ⟨_, ⟨_, hseq, _, hprior, hid⟩, _, hscope, _, ⟨hfits, rfl⟩, hret⟩
    cases hret
    refine ⟨⟨h, ⟨by simpa [scanOf] using hseq, by simp, by simp, by simp, by simpa [scanOf] using hfits⟩, ?_, ?_⟩, rfl⟩
    · intro e' he'
      rw [List.mem_singleton.mp he']
      simpa [scanOf] using hid
    · intro d hd e' he'
      rw [List.mem_singleton.mp he']
      obtain ⟨last, hlast, hle, hsame⟩ := h.last hd
      simp only [scanOf, hlast, Option.map_some, Option.all_some, decide_eq_true_eq, beq_iff_eq] at hprior hscope
      exact ⟨hle.trans hprior, hsame.trans hscope⟩
  · rintro ⟨⟨_, he, hid, hcross⟩, rfl⟩
    refine ⟨(), ⟨hschema, ?_, htime, ?_, ?_⟩, (), ?_, _, ⟨?_, rfl⟩, rfl⟩
    · simpa [scanOf] using he.sequences
    · cases hlast : read.getLast? with
      | none => simp [scanOf, hlast]
      | some d => simpa [scanOf, hlast] using (hcross d (List.mem_of_getLast? hlast) e (by simp)).1
    · simpa [scanOf] using hid e (by simp)
    · cases hlast : read.getLast? with
      | none => simp [scanOf, hlast]
      | some d => simpa [scanOf, hlast] using (hcross d (List.mem_of_getLast? hlast) e (by simp)).2
    · simpa [scanOf] using he.fits (by simp)

theorem foldlM_batchStep {start : ℕ} {read events : List RuntimeEvent} {scan : BatchScan} (h : IsBatch start read) :
    events.foldlM batchStep (scanOf start read) = .ok scan ↔
      IsBatch start (read ++ events) ∧ scan = scanOf start (read ++ events) := by
  induction events generalizing read with
  | nil => simp [h, pure, Except.pure, eq_comm]
  | cons e events ih =>
    simp only [List.foldlM_cons, bind_eq_ok, batchStep_scanOf h]
    rw [show read ++ e :: events = (read ++ [e]) ++ events by simp]
    constructor
    · rintro ⟨_, ⟨hread, rfl⟩, hrest⟩
      exact (ih hread).mp hrest
    · rintro ⟨hall, rfl⟩
      have hread := (isBatch_append.mp hall).1
      exact ⟨_, ⟨hread, rfl⟩, (ih hread).mpr ⟨hall, rfl⟩⟩

theorem validateBatch_eq_ok {start : ℕ} {events : List RuntimeEvent} :
    validateBatch start events = .ok () ↔ IsBatch start events := by
  have h := fun scan => @foldlM_batchStep start [] events scan (isBatch_nil start)
  simp only [validateBatch, bind_eq_ok]
  constructor
  · rintro ⟨scan, hscan, _⟩
    exact ((h scan).mp hscan).1
  · intro hb
    exact ⟨_, (h _).mpr ⟨hb, rfl⟩, rfl⟩

end RuntimeEvent

end AnimaCore
