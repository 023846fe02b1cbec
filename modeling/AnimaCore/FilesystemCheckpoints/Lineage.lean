import AnimaCore.FilesystemCheckpoints

/-!
# AnimaCore.FilesystemCheckpoints.Lineage — restoring a checkpoint from its mutation lineage

`filesystem_checkpoints/lineage.rs`: `prepare_safe_restore_with_lineage_profile`.  After complete checks of the lineage,
its digests and the objects, the changes of each path are folded into a `Chain`, and every checkpoint entry gets a
verdict: it is left alone, it is in conflict, or an operation restores it.

* `chainOf_spec`: what the chain of a path says of the changes on it.
-/

namespace AnimaCore.FilesystemCheckpoints

open Lib

/-! ## Records -/

def checkpointLineageVersion : ℕ := 1

def maxCheckpointLineageActions : ℕ := 50

def maxCheckpointLineageMembers : ℕ := 50000

def maxCheckpointLineageStepsPerPath : ℕ := 50

inductive MutationActionOutcome
  | acknowledged
  | uncertain
  deriving DecidableEq, Repr

inductive MutationDisposition
  | created
  | replaced
  | deleted
  | uncertain
  deriving DecidableEq, Repr

structure MutationChange where
  path : String
  disposition : MutationDisposition
  observedPreimage : FileState
  acknowledgedPostimage : Option FileState
  deriving DecidableEq

structure MutationAction where
  sequence : ℕ
  actionId : String
  nativeRunId : String
  nativeToolCallId : String
  requestDigest : String
  outcome : MutationActionOutcome
  changes : List MutationChange
  deriving DecidableEq

structure LineageHeadDigestInput where
  version : ℕ
  checkpointId : String
  checkpointSequence : ℕ
  manifestDigest : String
  scopeDigest : String
  actionCount : ℕ
  lastSequence : ℕ
  actionDigests : List String
  deriving DecidableEq

structure MutationLineage where
  version : ℕ
  checkpointId : String
  checkpointSequence : ℕ
  manifestDigest : String
  scopeDigest : String
  actionCount : ℕ
  lastSequence : ℕ
  actions : List MutationAction
  headDigest : String
  deriving DecidableEq

structure ExpectedActionBinding where
  sequence : ℕ
  actionId : String
  nativeRunId : String
  nativeToolCallId : String
  requestDigest : String
  actionDigest : String
  deriving DecidableEq

structure ExpectedLineageHead where
  checkpointId : String
  checkpointSequence : ℕ
  manifestDigest : String
  scopeDigest : String
  actionCount : ℕ
  lastSequence : ℕ
  headDigest : String
  actionBindings : List ExpectedActionBinding
  deriving DecidableEq

structure RestoreOperation where
  path : String
  expectedCurrent : FileState
  desired : FileState
  deriving DecidableEq

inductive RestoreConflictReason
  | missingEvidence
  | incompleteObservation
  | dirty
  | uncertain
  | unprovenCreation
  | lineageDiscontinuity
  deriving DecidableEq, Repr

structure RestoreConflict where
  path : String
  reason : RestoreConflictReason
  deriving DecidableEq

structure RestoreProposal where
  checkpointId : String
  scopeDigest : String
  operations : List RestoreOperation
  conflicts : List RestoreConflict
  deriving DecidableEq

structure LineageCodec extends EntryCodec where
  manifestDigest : FilesystemCheckpoint → String
  actionDigest : MutationAction → String
  headDigest : LineageHeadDigestInput → String
  lineageSize : MutationLineage → ℕ
  expectedHeadSize : ExpectedLineageHead → ℕ
  proposalSize : RestoreProposal → ℕ

/-! ## Checks -/

/-- The images of a change fit its disposition. -/
def validDisposition (outcome : MutationActionOutcome) (change : MutationChange) : Bool :=
  match change.disposition with
  | .created => !change.observedPreimage.isFile && change.acknowledgedPostimage.all (·.isFile)
  | .replaced => change.observedPreimage.isFile && change.acknowledgedPostimage.all (·.isFile)
  | .deleted => change.observedPreimage.isFile && change.acknowledgedPostimage.all (!·.isFile)
  | .uncertain => outcome != .acknowledged

def validateTransition (outcome : MutationActionOutcome) (change : MutationChange) : CheckpointResult Unit := do
  ensure (outcome = .acknowledged → change.acknowledgedPostimage ≠ none) .invalidWitness
  ensure (validDisposition outcome change = true) .invalidWitness

structure ActionLoop where
  index : ℕ
  actionIds : List String
  nativeIds : List (String × String)
  pathSteps : Table String ℕ
  observedBytes : ℕ
  actionDigests : List String

def validateAction (loop : ActionLoop) (action : MutationAction) (binding : ExpectedActionBinding) :
    CheckpointResult Unit :=
  ensure (action.sequence = loop.index + 1 ∧ action.changes ≠ [] ∧ validCheckpointId action.actionId = true ∧
    validCheckpointId action.nativeRunId = true ∧ validCheckpointId action.nativeToolCallId = true ∧
    validDigest action.requestDigest = true ∧ action.actionId ∉ loop.actionIds ∧
    (action.nativeRunId, action.nativeToolCallId) ∉ loop.nativeIds ∧ binding.sequence = action.sequence ∧
    binding.actionId = action.actionId ∧ binding.nativeRunId = action.nativeRunId ∧
    binding.nativeToolCallId = action.nativeToolCallId ∧ binding.requestDigest = action.requestDigest ∧
    validDigest binding.actionDigest = true) .invalidWitness

/-- The checks of one change: the steps counted by path and the bytes observed so far. -/
def validateChange (codec : LineageCodec) (profile : ValidationProfile) (semantics : PathSemantics)
    (targets : Table String FileState) (outcome : MutationActionOutcome) (acc : Table String ℕ × ℕ)
    (change : MutationChange) : CheckpointResult (Table String ℕ × ℕ) := do
  validatePath change.path semantics
  let key := pathKey change.path semantics
  ensure (key ∈ targets) .invalidWitness
  let steps := acc.1[key]?.getD 0 + 1
  ensure (steps ≤ maxCheckpointLineageStepsPerPath) .budget
  let observedBytes ← validateState codec.toEntryCodec profile acc.2 change.observedPreimage
  let observedBytes ← match change.acknowledgedPostimage with
    | none => .ok observedBytes
    | some postimage => validateState codec.toEntryCodec profile observedBytes postimage
  validateTransition outcome change
  return (acc.1.insert key steps, observedBytes)

def ActionLoop.next (codec : LineageCodec) (profile : ValidationProfile) (semantics : PathSemantics)
    (targets : Table String FileState) (loop : ActionLoop) (p : MutationAction × ExpectedActionBinding) :
    CheckpointResult ActionLoop := do
  let action := p.1
  let binding := p.2
  validateAction loop action binding
  let counted ← action.changes.foldlM (validateChange codec profile semantics targets action.outcome)
    (loop.pathSteps, loop.observedBytes)
  let preimages := action.changes.map fun c => { path := c.path, state := c.observedPreimage : CheckpointEntry }
  let postimages := action.changes.filterMap fun c =>
    c.acknowledgedPostimage.map fun state => { path := c.path, state : CheckpointEntry }
  validateEntries codec.toEntryCodec profile semantics true preimages
  validateEntries codec.toEntryCodec profile semantics true postimages
  let digest := codec.actionDigest action
  ensure (digest = binding.actionDigest) .invalidWitness
  return { index := loop.index + 1, actionIds := action.actionId :: loop.actionIds
           nativeIds := (action.nativeRunId, action.nativeToolCallId) :: loop.nativeIds
           pathSteps := counted.1, observedBytes := counted.2, actionDigests := loop.actionDigests ++ [digest] }

/-- The agreement of lineage, checkpoint and expected head. -/
def validateHead (codec : LineageCodec) (checkpoint : FilesystemCheckpoint) (lineage : MutationLineage)
    (expectedHead : ExpectedLineageHead) : CheckpointResult Unit :=
  ensure (lineage.version = checkpointLineageVersion ∧ lineage.checkpointId = checkpoint.checkpointId ∧
    lineage.checkpointSequence = checkpoint.sequence ∧ lineage.scopeDigest = checkpoint.scopeDigest ∧
    lineage.manifestDigest = codec.manifestDigest checkpoint ∧ lineage.actionCount = lineage.actions.length ∧
    lineage.lastSequence = lineage.actions.length ∧ validDigest lineage.headDigest = true ∧
    expectedHead.checkpointId = lineage.checkpointId ∧
    expectedHead.checkpointSequence = lineage.checkpointSequence ∧
    expectedHead.manifestDigest = lineage.manifestDigest ∧ expectedHead.scopeDigest = lineage.scopeDigest ∧
    expectedHead.actionCount = lineage.actionCount ∧ expectedHead.lastSequence = lineage.lastSequence ∧
    expectedHead.headDigest = lineage.headDigest ∧ expectedHead.actionBindings.length = lineage.actions.length)
    .invalidWitness

/-- The states of a list of entries by path key. -/
def statesByKey (entries : List CheckpointEntry) (semantics : PathSemantics) : Table String FileState :=
  entries.foldl (fun t e => t.insert (pathKey e.path semantics) e.state) ∅

/-! ## Chains -/

structure LineageStep where
  outcome : MutationActionOutcome
  change : MutationChange
  deriving DecidableEq

def MutationLineage.steps (lineage : MutationLineage) : List LineageStep :=
  lineage.actions.flatMap fun action => action.changes.map fun change => { outcome := action.outcome, change }

structure Chain where
  lastAcknowledgement : Option FileState
  discontinuous : Bool
  uncertain : Bool
  provenCreation : Bool
  deriving DecidableEq

/-- The change creates a file where the checkpoint has none, and was acknowledged. -/
def LineageStep.provesCreation (step : LineageStep) (target : FileState) : Bool :=
  target == .absent && step.change.observedPreimage == .absent && step.change.disposition == .created &&
    step.outcome == .acknowledged

/-- The chain that the first change of a path starts. -/
def Chain.start (target : FileState) (step : LineageStep) : Chain :=
  { lastAcknowledgement := some target, discontinuous := false, uncertain := false
    provenCreation := step.provesCreation target }

/-- The change leaves the state of the path open. -/
def LineageStep.isUncertain (step : LineageStep) : Bool :=
  step.outcome == .uncertain || step.change.disposition == .uncertain || step.change.acknowledgedPostimage.isNone

def Chain.next (chain : Chain) (step : LineageStep) : Chain :=
  { chain with
    discontinuous := chain.discontinuous ||
      chain.lastAcknowledgement.any fun previous => previous != step.change.observedPreimage
    uncertain := chain.uncertain || step.isUncertain
    lastAcknowledgement := step.change.acknowledgedPostimage }

/-- The chains of all paths; the first pass has checked that every key is a target. -/
def chains (semantics : PathSemantics) (targets : Table String FileState) (lineage : MutationLineage) :
    Table String Chain :=
  lineage.steps.foldl (fun t step =>
    let key := pathKey step.change.path semantics
    t.insert key ((t[key]?.getD (Chain.start (targets[key]?.getD .absent) step)).next step)) ∅

/-! ## Verdicts -/

inductive Verdict
  | untouched
  | conflict (reason : RestoreConflictReason)
  | operation (expectedCurrent : FileState)
  deriving DecidableEq

/-- The `match` on the chain and the observation of an entry. -/
def verdict (target : FileState) : Option Chain → Option FileState → Verdict
  | some chain, observation =>
    if chain.uncertain then .conflict .uncertain
    else if chain.discontinuous then .conflict .lineageDiscontinuity
    else match observation with
      | none => .conflict .incompleteObservation
      | some state =>
        if chain.lastAcknowledgement ≠ some state then .conflict .dirty
        else if state = target then .untouched
        else if target = .absent ∧ chain.provenCreation = false then .conflict .unprovenCreation
        else .operation state
  | none, none => .conflict .incompleteObservation
  | none, some state => if state = target then .untouched else .conflict .missingEvidence

/-- The operation of an entry, if its verdict is one. -/
def Verdict.toOperation (entry : CheckpointEntry) : Verdict → Option RestoreOperation
  | .operation state => some { path := entry.path, expectedCurrent := state, desired := entry.state }
  | _ => none

/-- The conflict of an entry, if its verdict is one. -/
def Verdict.toConflict (entry : CheckpointEntry) : Verdict → Option RestoreConflict
  | .conflict reason => some { path := entry.path, reason }
  | _ => none

def entryVerdict (checkpoint : FilesystemCheckpoint) (current : List CheckpointEntry) (lineage : MutationLineage)
    (entry : CheckpointEntry) : Verdict :=
  let semantics := checkpoint.scope.pathSemantics
  let key := pathKey entry.path semantics
  verdict entry.state (chains semantics (statesByKey checkpoint.entries semantics) lineage)[key]?
    (statesByKey current semantics)[key]?

def restoreProposal (checkpoint : FilesystemCheckpoint) (current : List CheckpointEntry) (lineage : MutationLineage) :
    RestoreProposal :=
  { checkpointId := checkpoint.checkpointId, scopeDigest := checkpoint.scopeDigest
    operations := checkpoint.entries.filterMap fun e => (entryVerdict checkpoint current lineage e).toOperation e
    conflicts := checkpoint.entries.filterMap fun e => (entryVerdict checkpoint current lineage e).toConflict e }

/-- The count bounds that are checked before anything else. -/
def validateCounts (lineage : MutationLineage) (expectedHead : ExpectedLineageHead) : CheckpointResult Unit := do
  ensure (lineage.actions.length ≤ maxCheckpointLineageActions ∧
    expectedHead.actionBindings.length ≤ maxCheckpointLineageActions) .budget
  let _ ← lineage.actions.foldlM (fun (members : ℕ) action => do
    let members := members + action.changes.length
    ensure (members ≤ maxCheckpointLineageMembers) CheckpointError.budget
    return members) 0

def prepareSafeRestoreWithLineageProfile (codec : LineageCodec) (checkpoint : FilesystemCheckpoint)
    (expectedScope : CheckpointScope) (objects : List CheckpointBlob) (current : List CheckpointEntry)
    (lineage : MutationLineage) (expectedHead : ExpectedLineageHead) (profile : ValidationProfile) :
    CheckpointResult RestoreProposal := do
  let semantics := checkpoint.scope.pathSemantics
  validateCounts lineage expectedHead
  boundedJson (codec.lineageSize lineage)
  boundedJson (codec.expectedHeadSize expectedHead)
  validateCheckpointShape codec.toEntryCodec profile checkpoint expectedScope
  validateEntries codec.toEntryCodec profile semantics false current
  validateHead codec checkpoint lineage expectedHead
  let targets := statesByKey checkpoint.entries semantics
  let loop ← (lineage.actions.zip expectedHead.actionBindings).foldlM (ActionLoop.next codec profile semantics targets)
    { index := 0, actionIds := [], nativeIds := [], pathSteps := ∅, observedBytes := 0, actionDigests := [] }
  let head : LineageHeadDigestInput :=
    { version := lineage.version, checkpointId := lineage.checkpointId
      checkpointSequence := lineage.checkpointSequence, manifestDigest := lineage.manifestDigest
      scopeDigest := lineage.scopeDigest, actionCount := lineage.actionCount, lastSequence := lineage.lastSequence
      actionDigests := loop.actionDigests }
  ensure (codec.headDigest head = lineage.headDigest) .invalidWitness
  let inventory ← validateObjects codec.toEntryCodec objects
  (checkpoint.entries ++ current).forM fun e => resolveState inventory e.state
  lineage.steps.forM fun step => do
    resolveState inventory step.change.observedPreimage
    match step.change.acknowledgedPostimage with
    | none => .ok ()
    | some postimage => resolveState inventory postimage
  let proposal := restoreProposal checkpoint current lineage
  boundedJson (codec.proposalSize proposal)
  return proposal

def prepareSafeRestoreWithLineage (codec : LineageCodec) (checkpoint : FilesystemCheckpoint)
    (expectedScope : CheckpointScope) (objects : List CheckpointBlob) (current : List CheckpointEntry)
    (lineage : MutationLineage) (expectedHead : ExpectedLineageHead) : CheckpointResult RestoreProposal :=
  prepareSafeRestoreWithLineageProfile codec checkpoint expectedScope objects current lineage expectedHead .strict

def prepareContentBasicV1SafeRestoreWithLineage (codec : LineageCodec) (checkpoint : FilesystemCheckpoint)
    (expectedScope : CheckpointScope) (objects : List CheckpointBlob) (current : List CheckpointEntry)
    (lineage : MutationLineage) (expectedHead : ExpectedLineageHead) : CheckpointResult RestoreProposal :=
  prepareSafeRestoreWithLineageProfile codec checkpoint expectedScope objects current lineage expectedHead
    (.contentBasicV1 expectedScope.pathSemantics)

/-! ## What a chain says -/

/-- The changes lead from one state to another: each was acknowledged, and starts where the one before it ended. -/
def Explains : FileState → List LineageStep → FileState → Prop
  | previous, [], final => previous = final
  | previous, step :: steps, final =>
    step.outcome = .acknowledged ∧ step.change.observedPreimage = previous ∧
      ∃ postimage, step.change.acknowledgedPostimage = some postimage ∧ Explains postimage steps final

theorem foldl_next_uncertain {chain : Chain} {steps : List LineageStep}
    (h : (steps.foldl Chain.next chain).uncertain = false) : chain.uncertain = false := by
  induction steps generalizing chain with
  | nil => exact h
  | cons step steps ih => exact (Bool.or_eq_false_iff.mp (ih h)).1

theorem foldl_next_discontinuous {chain : Chain} {steps : List LineageStep}
    (h : (steps.foldl Chain.next chain).discontinuous = false) : chain.discontinuous = false := by
  induction steps generalizing chain with
  | nil => exact h
  | cons step steps ih => exact (Bool.or_eq_false_iff.mp (ih h)).1

theorem foldl_next_provenCreation (chain : Chain) (steps : List LineageStep) :
    (steps.foldl Chain.next chain).provenCreation = chain.provenCreation := by
  induction steps generalizing chain with
  | nil => rfl
  | cons step steps ih => exact ih (chain.next step)

theorem foldl_next_explains {chain : Chain} {steps : List LineageStep} {previous final : FileState}
    (hlast : chain.lastAcknowledgement = some previous) (hu : (steps.foldl Chain.next chain).uncertain = false)
    (hd : (steps.foldl Chain.next chain).discontinuous = false)
    (hfinal : (steps.foldl Chain.next chain).lastAcknowledgement = some final) : Explains previous steps final := by
  induction steps generalizing chain previous with
  | nil =>
    rw [List.foldl_nil, hlast] at hfinal
    exact Option.some.inj hfinal
  | cons step steps ih =>
    have hu' : (chain.next step).uncertain = false := foldl_next_uncertain hu
    have hd' : (chain.next step).discontinuous = false := foldl_next_discontinuous hd
    have hcertain : step.isUncertain = false := (Bool.or_eq_false_iff.mp hu').2
    have hcont := (Bool.or_eq_false_iff.mp hd').2
    rw [hlast, Option.any_some, bne_eq_false_iff_eq] at hcont
    simp only [LineageStep.isUncertain, Bool.or_eq_false_iff, beq_eq_false_iff_ne, Option.isNone_eq_false_iff] at hcertain
    obtain ⟨⟨hout, _⟩, hpost⟩ := hcertain
    obtain ⟨postimage, hpost⟩ := Option.isSome_iff_exists.mp hpost
    have hrest : Explains postimage steps final := ih (show (chain.next step).lastAcknowledgement = _ from hpost) hu hd hfinal
    refine ⟨?_, hcont.symm, postimage, hpost, hrest⟩
    cases ho : step.outcome with
    | acknowledged => rfl
    | uncertain => exact absurd ho hout

def MutationLineage.stepsOn (lineage : MutationLineage) (semantics : PathSemantics) (key : String) : List LineageStep :=
  lineage.steps.filter fun step => decide (pathKey step.change.path semantics = key)

theorem chains_eq {semantics : PathSemantics} {targets : Table String FileState} {lineage : MutationLineage}
    {key : String} {target : FileState} (ht : targets[key]? = some target) :
    (chains semantics targets lineage)[key]? =
      match lineage.stepsOn semantics key with
      | [] => none
      | step :: steps => some ((step :: steps).foldl Chain.next (Chain.start target step)) := by
  have hupsert := Table.getElem?_foldl_upsert (t := (∅ : Table String Chain))
    (fun step : LineageStep => pathKey step.change.path semantics)
    (fun step => Chain.start (targets[pathKey step.change.path semantics]?.getD .absent) step) Chain.next lineage.steps key
  have hsome : ∀ (steps : List LineageStep) (chain : Chain),
      steps.foldl (fun o step => some ((o.getD (Chain.start
        (targets[pathKey step.change.path semantics]?.getD .absent) step)).next step)) (some chain) =
        some (steps.foldl Chain.next chain) := by
    intro steps
    induction steps with
    | nil => exact fun _ => rfl
    | cons step steps ih => exact fun chain => ih (chain.next step)
  refine hupsert.trans ?_
  rw [Std.ExtTreeMap.getElem?_empty]
  show (lineage.stepsOn semantics key).foldl _ none = _
  cases hs : lineage.stepsOn semantics key with
  | nil => rfl
  | cons step steps =>
    have hkey : pathKey step.change.path semantics = key := by
      have hmem : step ∈ lineage.stepsOn semantics key := by simp [hs]
      simpa using (List.mem_filter.mp hmem).2
    rw [List.foldl_cons]
    dsimp only
    rw [hsome, hkey, ht]
    rfl

/-! ## Verdicts -/

/-- What the verdict rests on: the changes on the path, the checkpoint state and the observation. -/
structure Justified (steps : List LineageStep) (target current : FileState) : Prop where
  changed : steps ≠ []
  explained : Explains target steps current
  differs : current ≠ target
  creation : target = .absent → ∃ step rest, steps = step :: rest ∧ step.provesCreation target = true

theorem verdict_untouched {target : FileState} {chain : Option Chain} {observation : Option FileState}
    (h : verdict target chain observation = .untouched) : observation = some target := by
  cases chain with
  | none =>
    cases observation with
    | none => cases h
    | some state =>
      simp only [verdict] at h
      split_ifs at h with heq
      rw [heq]
  | some chain =>
    cases observation with
    | none =>
      simp only [verdict] at h
      split_ifs at h
    | some state =>
      simp only [verdict] at h
      split_ifs at h with _ _ _ heq
      rw [heq]

theorem verdict_operation {target current : FileState} {steps : List LineageStep} {observation : Option FileState}
    (h : verdict target (match steps with
      | [] => none
      | step :: steps => some ((step :: steps).foldl Chain.next (Chain.start target step))) observation =
        .operation current) : observation = some current ∧ Justified steps target current := by
  cases steps with
  | nil =>
    cases observation with
    | none => cases h
    | some state =>
      simp only [verdict] at h
      split_ifs at h
  | cons step rest =>
    cases observation with
    | none =>
      simp only [verdict] at h
      split_ifs at h
    | some state =>
      simp only [verdict] at h
      split_ifs at h with hu hd hlast heq hcreate
      cases h
      refine ⟨rfl, List.cons_ne_nil _ _, ?_, heq, ?_⟩
      · exact foldl_next_explains (show (Chain.start target step).lastAcknowledgement = _ from rfl)
          (by simpa using hu) (by simpa using hd) (not_ne_iff.mp hlast)
      · intro habsent
        refine ⟨step, rest, rfl, ?_⟩
        have hproven : ((step :: rest).foldl Chain.next (Chain.start target step)).provenCreation = true := by
          simpa [habsent] using hcreate
        rwa [foldl_next_provenCreation] at hproven

/-! ## The proposal -/

theorem statesByKey_eq_some {entries : List CheckpointEntry} {semantics : PathSemantics} {key : String}
    {state : FileState} (hnd : (entries.map fun e => pathKey e.path semantics).Nodup) :
    (statesByKey entries semantics)[key]? = some state ↔
      ∃ e ∈ entries, pathKey e.path semantics = key ∧ e.state = state := by
  have hfold := Table.getElem?_foldl_insert (t := (∅ : Table String FileState))
    (fun e : CheckpointEntry => pathKey e.path semantics) (fun e => e.state) hnd key
  unfold statesByKey
  rw [hfold, Std.ExtTreeMap.getElem?_empty, Option.or_none]
  constructor
  · intro h
    obtain ⟨e, he, hs⟩ := Option.map_eq_some_iff.mp h
    refine ⟨e, List.mem_of_find?_eq_some he, ?_, hs⟩
    simpa using List.find?_some he
  · rintro ⟨e, hm, rfl, rfl⟩
    have hfind : entries.find? (fun e' => decide (pathKey e'.path semantics = pathKey e.path semantics)) = some e := by
      cases hf : entries.find? (fun e' => decide (pathKey e'.path semantics = pathKey e.path semantics)) with
      | none => exact absurd (decide_eq_true rfl) (List.find?_eq_none.mp hf e hm)
      | some e' =>
        have hkey : pathKey e'.path semantics = pathKey e.path semantics := by simpa using List.find?_some hf
        rw [List.inj_on_of_nodup_map hnd (List.mem_of_find?_eq_some hf) hm hkey]
    rw [hfind]
    rfl

theorem toOperation_path {v : Verdict} {entry : CheckpointEntry} {op : RestoreOperation}
    (h : v.toOperation entry = some op) : op.path = entry.path := by
  cases v with
  | operation state =>
    cases h
    rfl
  | untouched => cases h
  | conflict reason => cases h

theorem toConflict_path {v : Verdict} {entry : CheckpointEntry} {c : RestoreConflict}
    (h : v.toConflict entry = some c) : c.path = entry.path := by
  cases v with
  | conflict reason =>
    cases h
    rfl
  | untouched => cases h
  | operation state => cases h

theorem selected_sublist {α : Type} {entries : List CheckpointEntry} {f : CheckpointEntry → Option α}
    {path : α → String} (hpath : ∀ e a, f e = some a → path a = e.path) :
    ((entries.filterMap f).map path).Sublist (entries.map (·.path)) := by
  induction entries with
  | nil => exact List.Sublist.refl _
  | cons e entries ih =>
    cases hf : f e with
    | none =>
      rw [List.filterMap_cons_none hf]
      exact ih.cons _
    | some a =>
      rw [List.filterMap_cons_some hf, List.map_cons, List.map_cons, hpath e a hf]
      exact ih.cons_cons _

theorem count_selected {α : Type} {entries : List CheckpointEntry} {f : CheckpointEntry → Option α} {path : α → String}
    (hnd : (entries.map (·.path)).Nodup) (hpath : ∀ e a, f e = some a → path a = e.path) {entry : CheckpointEntry}
    (hm : entry ∈ entries) : ((entries.filterMap f).map path).count entry.path = (f entry).isSome.toNat := by
  induction entries with
  | nil => cases hm
  | cons first entries ih =>
    rw [List.map_cons, List.nodup_cons] at hnd
    have habsent : ∀ e : CheckpointEntry, e.path ∉ entries.map (·.path) → ((entries.filterMap f).map path).count e.path = 0 := by
      intro e he
      rw [List.count_eq_zero]
      intro hmem
      obtain ⟨a, ha, hap⟩ := List.mem_map.mp hmem
      obtain ⟨e', he', hfe'⟩ := List.mem_filterMap.mp ha
      exact he (List.mem_map.mpr ⟨e', he', by rw [← hap, hpath e' a hfe']⟩)
    rcases List.mem_cons.mp hm with rfl | hm
    · cases hf : f entry with
      | none => simp [hf, habsent entry hnd.1]
      | some a => simp [hf, hpath entry a hf, habsent entry hnd.1]
    · have hne : first.path ≠ entry.path := fun he => hnd.1 (List.mem_map.mpr ⟨entry, hm, he.symm⟩)
      rw [← ih hnd.2 hm]
      cases hf : f first with
      | none => simp [hf]
      | some a => simp [hf, hpath first a hf, hne]

/-- A file system by path key after the operations of a proposal. -/
def applyOperations (semantics : PathSemantics) (operations : List RestoreOperation) (files : String → FileState) :
    String → FileState :=
  operations.foldl (fun files op => Function.update files (pathKey op.path semantics) op.desired) files

theorem applyOperations_other {semantics : PathSemantics} {operations : List RestoreOperation} {key : String}
    (h : ∀ op ∈ operations, pathKey op.path semantics ≠ key) (files : String → FileState) :
    applyOperations semantics operations files key = files key := by
  induction operations generalizing files with
  | nil => rfl
  | cons op operations ih =>
    have hrest := ih (fun op' hm => h op' (by simp [hm])) (Function.update files (pathKey op.path semantics) op.desired)
    refine hrest.trans (Function.update_of_ne ?_ _ _)
    exact (h op (by simp)).symm

theorem applyOperations_mem {semantics : PathSemantics} {operations : List RestoreOperation} {op : RestoreOperation}
    (hnd : (operations.map fun op => pathKey op.path semantics).Nodup) (hm : op ∈ operations)
    (files : String → FileState) :
    applyOperations semantics operations files (pathKey op.path semantics) = op.desired := by
  induction operations generalizing files with
  | nil => cases hm
  | cons first operations ih =>
    rw [List.map_cons, List.nodup_cons] at hnd
    rcases List.mem_cons.mp hm with rfl | hm
    · have hothers : ∀ op' ∈ operations, pathKey op'.path semantics ≠ pathKey op.path semantics := fun op' hm' he =>
        hnd.1 (List.mem_map.mpr ⟨op', hm', he⟩)
      have hlast := applyOperations_other hothers (Function.update files (pathKey op.path semantics) op.desired)
      exact hlast.trans (Function.update_self _ _ _)
    · exact ih hnd.2 hm _

section

variable {codec : LineageCodec} {checkpoint : FilesystemCheckpoint} {expectedScope : CheckpointScope}
  {objects : List CheckpointBlob} {current : List CheckpointEntry} {lineage : MutationLineage}
  {expectedHead : ExpectedLineageHead} {profile : ValidationProfile} {p : RestoreProposal}

theorem prepare_eq_ok (h : prepareSafeRestoreWithLineageProfile codec checkpoint expectedScope objects current lineage
    expectedHead profile = .ok p) :
    p = restoreProposal checkpoint current lineage ∧
      (checkpoint.entries.map fun e => pathKey e.path checkpoint.scope.pathSemantics).Nodup ∧
      (current.map fun e => pathKey e.path checkpoint.scope.pathSemantics).Nodup := by
  simp only [prepareSafeRestoreWithLineageProfile, bind_eq_ok] at h
  obtain ⟨_, _, _, _, _, _, _, hshape, _, hcurrent, _, _, _, _, _, _, _, _, _, _, _, _, _, _, hout⟩ := h
  simp only [validateCheckpointShape, bind_eq_ok] at hshape
  obtain ⟨_, _, _, _, _, _, _, hentries, _⟩ := hshape
  cases hout
  exact ⟨rfl, validateEntries_nodup hentries, validateEntries_nodup hcurrent⟩

def ObservedAs (checkpoint : FilesystemCheckpoint) (current : List CheckpointEntry) (path : String) (state : FileState) :
    Prop :=
  ∃ e ∈ current, pathKey e.path checkpoint.scope.pathSemantics = pathKey path checkpoint.scope.pathSemantics ∧
    e.state = state

theorem entryVerdict_eq {entry : CheckpointEntry}
    (hnd : (checkpoint.entries.map fun e => pathKey e.path checkpoint.scope.pathSemantics).Nodup)
    (hm : entry ∈ checkpoint.entries) :
    entryVerdict checkpoint current lineage entry =
      verdict entry.state (match lineage.stepsOn checkpoint.scope.pathSemantics
          (pathKey entry.path checkpoint.scope.pathSemantics) with
        | [] => none
        | step :: steps => some ((step :: steps).foldl Chain.next (Chain.start entry.state step)))
        (statesByKey current checkpoint.scope.pathSemantics)[pathKey entry.path checkpoint.scope.pathSemantics]? := by
  have htarget := (statesByKey_eq_some hnd).mpr ⟨entry, hm, rfl, rfl⟩
  unfold entryVerdict
  dsimp only
  rw [chains_eq htarget]

theorem mem_operations {op : RestoreOperation} (hm : op ∈ (restoreProposal checkpoint current lineage).operations) :
    ∃ entry ∈ checkpoint.entries, ∃ state, entryVerdict checkpoint current lineage entry = .operation state ∧
      op = { path := entry.path, expectedCurrent := state, desired := entry.state } := by
  obtain ⟨entry, he, hop⟩ := List.mem_filterMap.mp hm
  refine ⟨entry, he, ?_⟩
  cases hv : entryVerdict checkpoint current lineage entry with
  | untouched =>
    rw [hv] at hop
    cases hop
  | conflict reason =>
    rw [hv] at hop
    cases hop
  | operation state =>
    rw [hv] at hop
    cases hop
    exact ⟨state, rfl, rfl⟩

theorem operations_nodup
    (hnd : (checkpoint.entries.map fun e => pathKey e.path checkpoint.scope.pathSemantics).Nodup) :
    ((restoreProposal checkpoint current lineage).operations.map fun op =>
      pathKey op.path checkpoint.scope.pathSemantics).Nodup := by
  have hsub : ((restoreProposal checkpoint current lineage).operations.map (·.path)).Sublist
      (checkpoint.entries.map (·.path)) := selected_sublist fun _ _ => toOperation_path
  have hkeys := hsub.map fun path => pathKey path checkpoint.scope.pathSemantics
  simp only [List.map_map] at hkeys
  exact hnd.sublist hkeys

/-- **Restore accounts for everything.**  Every checkpoint entry has one operation, one conflict, or neither and is then
observed as recorded.  An operation is proposed only for content that the acknowledged changes on its path explain from
the checkpoint state on.  Applied to a file system as observed, the operations produce the checkpoint on every path
without a conflict, and change nothing else. -/
theorem restore_accounts_for_all (h : prepareSafeRestoreWithLineage codec checkpoint expectedScope objects current
    lineage expectedHead = .ok p) :
    (∀ entry ∈ checkpoint.entries,
      ((p.operations.map (·.path)).count entry.path = 1 ∧ (p.conflicts.map (·.path)).count entry.path = 0) ∨
      ((p.operations.map (·.path)).count entry.path = 0 ∧ (p.conflicts.map (·.path)).count entry.path = 1) ∨
      ((p.operations.map (·.path)).count entry.path = 0 ∧ (p.conflicts.map (·.path)).count entry.path = 0 ∧
        ObservedAs checkpoint current entry.path entry.state)) ∧
    (∀ op ∈ p.operations, ∃ entry ∈ checkpoint.entries, op.path = entry.path ∧ op.desired = entry.state ∧
      ObservedAs checkpoint current op.path op.expectedCurrent ∧
      Justified (lineage.stepsOn checkpoint.scope.pathSemantics (pathKey op.path checkpoint.scope.pathSemantics))
        entry.state op.expectedCurrent) ∧
    (∀ files : String → FileState,
      (∀ e ∈ current, files (pathKey e.path checkpoint.scope.pathSemantics) = e.state) →
      (∀ entry ∈ checkpoint.entries, entry.path ∉ p.conflicts.map (·.path) →
        applyOperations checkpoint.scope.pathSemantics p.operations files
          (pathKey entry.path checkpoint.scope.pathSemantics) = entry.state) ∧
      (∀ key, (∀ entry ∈ checkpoint.entries, entry.path ∉ p.conflicts.map (·.path) →
          pathKey entry.path checkpoint.scope.pathSemantics ≠ key) →
        applyOperations checkpoint.scope.pathSemantics p.operations files key = files key)) := by
  obtain ⟨rfl, hentries, hcurrent⟩ := prepare_eq_ok h
  have hpaths : (checkpoint.entries.map (·.path)).Nodup := by
    have hmap : checkpoint.entries.map (fun e => pathKey e.path checkpoint.scope.pathSemantics) =
        (checkpoint.entries.map (·.path)).map fun path => pathKey path checkpoint.scope.pathSemantics := by simp
    rw [hmap] at hentries
    exact hentries.of_map
  -- how often the path of an entry stands among the operations and among the conflicts
  have hops : ∀ entry ∈ checkpoint.entries,
      ((restoreProposal checkpoint current lineage).operations.map (·.path)).count entry.path =
        ((entryVerdict checkpoint current lineage entry).toOperation entry).isSome.toNat := fun entry hm =>
    count_selected hpaths (fun _ _ => toOperation_path) hm
  have hconfs : ∀ entry ∈ checkpoint.entries,
      ((restoreProposal checkpoint current lineage).conflicts.map (·.path)).count entry.path =
        ((entryVerdict checkpoint current lineage entry).toConflict entry).isSome.toNat := fun entry hm =>
    count_selected hpaths (fun _ _ => toConflict_path) hm
  have huntouched : ∀ entry ∈ checkpoint.entries, entryVerdict checkpoint current lineage entry = .untouched →
      ObservedAs checkpoint current entry.path entry.state := by
    intro entry hm hv
    rw [entryVerdict_eq hentries hm] at hv
    exact (statesByKey_eq_some hcurrent).mp (verdict_untouched hv)
  refine ⟨?_, ?_, ?_⟩
  · intro entry hm
    rw [hops entry hm, hconfs entry hm]
    cases hv : entryVerdict checkpoint current lineage entry with
    | operation state => exact Or.inl ⟨rfl, rfl⟩
    | conflict reason => exact Or.inr (Or.inl ⟨rfl, rfl⟩)
    | untouched => exact Or.inr (Or.inr ⟨rfl, rfl, huntouched entry hm hv⟩)
  · intro op hop
    obtain ⟨entry, hm, state, hv, rfl⟩ := mem_operations hop
    rw [entryVerdict_eq hentries hm] at hv
    obtain ⟨hobs, hjust⟩ := verdict_operation hv
    exact ⟨entry, hm, rfl, rfl, (statesByKey_eq_some hcurrent).mp hobs, hjust⟩
  · intro files hfiles
    refine ⟨fun entry hm hfree => ?_, fun key hother => ?_⟩
    · cases hv : entryVerdict checkpoint current lineage entry with
      | conflict reason =>
        refine absurd ?_ hfree
        have hc : (entryVerdict checkpoint current lineage entry).toConflict entry =
            some { path := entry.path, reason } := by rw [hv]; rfl
        exact List.mem_map.mpr ⟨_, List.mem_filterMap.mpr ⟨entry, hm, hc⟩, rfl⟩
      | operation state =>
        have ho : (entryVerdict checkpoint current lineage entry).toOperation entry =
            some { path := entry.path, expectedCurrent := state, desired := entry.state } := by rw [hv]; rfl
        exact applyOperations_mem (operations_nodup hentries) (List.mem_filterMap.mpr ⟨entry, hm, ho⟩) files
      | untouched =>
        -- no operation has the key of this entry
        have hnone : ∀ op ∈ (restoreProposal checkpoint current lineage).operations,
            pathKey op.path checkpoint.scope.pathSemantics ≠ pathKey entry.path checkpoint.scope.pathSemantics := by
          intro op hop hkey
          obtain ⟨entry', hm', state, hv', rfl⟩ := mem_operations hop
          rw [List.inj_on_of_nodup_map hentries hm' hm hkey, hv] at hv'
          cases hv'
        rw [applyOperations_other hnone]
        obtain ⟨e, he, hkey, hstate⟩ := huntouched entry hm hv
        rw [← hkey, hfiles e he, hstate]
    · refine applyOperations_other (fun op hop hkey => ?_) files
      obtain ⟨entry, hm, state, hv, rfl⟩ := mem_operations hop
      refine hother entry hm ?_ hkey
      have hzero : ((restoreProposal checkpoint current lineage).conflicts.map (·.path)).count entry.path = 0 := by
        rw [hconfs entry hm, hv]
        rfl
      exact List.count_eq_zero.mp hzero

end

namespace Sample

def hex : String := "0123456789abcdef0123456789abcdef0123456789abcdef0123456789abcdef"

def scope : CheckpointScope :=
  { ownerId := "owner", workspaceId := "workspace", environmentId := "env", pathSemantics := .posixSensitive
    rootIdentityDigest := hex, policyDigest := hex }

def written : FileState :=
  .file { sha256 := "8f434346648f6b96df89dda901c5176b10a6d83961dd3c1ac88b59b2dc327aa4", byteCount := 2 }
    { required := [.basicPermissions, .modificationTime]
      attributes := [{ kind := .basicPermissions, encodingVersion := 1, bytes := [1] },
        { kind := .modificationTime, encodingVersion := 1, bytes := [2] }] }

/-- A checkpoint of one path, where no file was. -/
def checkpoint : FilesystemCheckpoint :=
  { version := 1, checkpointId := "checkpoint", sequence := 1, scope
    scopeDigest := "5a3e067eb6edace3b67cb902b1ec0d13016683ff2ddfe5415bdbc170dc75bd0d"
    entries := [{ path := "notes.txt", state := .absent }] }

/-- The path was then created, and the creation acknowledged. -/
def action : MutationAction :=
  { sequence := 1, actionId := "action", nativeRunId := "run", nativeToolCallId := "call", requestDigest := hex
    outcome := .acknowledged
    changes := [{ path := "notes.txt", disposition := .created, observedPreimage := .absent
                  acknowledgedPostimage := some written }] }

def lineage : MutationLineage :=
  { version := 1, checkpointId := "checkpoint", checkpointSequence := 1
    manifestDigest := "7016d9c1d5eb931a4c915ca217195d6dbd3b12401b529e5a133dfb13fc6b5840"
    scopeDigest := checkpoint.scopeDigest, actionCount := 1, lastSequence := 1, actions := [action]
    headDigest := "3f3124589ac2e6cb2448664f432e375e46bfef151bb06c2ef83b775b9a46ff1e" }

def expectedHead : ExpectedLineageHead :=
  { checkpointId := "checkpoint", checkpointSequence := 1, manifestDigest := lineage.manifestDigest
    scopeDigest := checkpoint.scopeDigest, actionCount := 1, lastSequence := 1, headDigest := lineage.headDigest
    actionBindings := [{ sequence := 1, actionId := "action", nativeRunId := "run", nativeToolCallId := "call"
                         requestDigest := hex
                         actionDigest := "35239d6e86b0e03732a78d96504c7a89a3bffe4570668c8b91bb60801328e19a" }] }

def proposal : RestoreProposal :=
  { checkpointId := "checkpoint", scopeDigest := checkpoint.scopeDigest
    operations := [{ path := "notes.txt", expectedCurrent := written, desired := .absent }], conflicts := [] }

/-- The digests and sizes of the records above. -/
def codec : LineageCodec :=
  { digest := fun _ => "8f434346648f6b96df89dda901c5176b10a6d83961dd3c1ac88b59b2dc327aa4"
    scopeDigest := fun _ => checkpoint.scopeDigest
    entriesSize := fun entries => if entries = checkpoint.entries then 48 else 354
    checkpointSize := fun _ => 483
    decodePermissions := fun _ => none
    encodePermissions := fun _ => []
    manifestDigest := fun _ => lineage.manifestDigest
    actionDigest := fun _ => "35239d6e86b0e03732a78d96504c7a89a3bffe4570668c8b91bb60801328e19a"
    headDigest := fun _ => lineage.headDigest
    lineageSize := fun _ => 1001
    expectedHeadSize := fun _ => 611
    proposalSize := fun _ => 534 }

def objects : List CheckpointBlob :=
  [{ reference := { sha256 := "8f434346648f6b96df89dda901c5176b10a6d83961dd3c1ac88b59b2dc327aa4", byteCount := 2 }
     bytes := [104, 105] }]

end Sample

/-- The created file is removed again, and its path is then as the checkpoint has it. -/
theorem sample_created_file_is_removed :
    prepareSafeRestoreWithLineage Sample.codec Sample.checkpoint Sample.scope Sample.objects
        [{ path := "notes.txt", state := Sample.written }] Sample.lineage Sample.expectedHead = .ok Sample.proposal ∧
      applyOperations .posixSensitive Sample.proposal.operations (fun _ => Sample.written) "notes.txt" = .absent := by
  have hok : prepareSafeRestoreWithLineage Sample.codec Sample.checkpoint Sample.scope Sample.objects
      [{ path := "notes.txt", state := Sample.written }] Sample.lineage Sample.expectedHead = .ok Sample.proposal := by
    decide +kernel
  refine ⟨hok, ?_⟩
  obtain ⟨_, _, happly⟩ := restore_accounts_for_all hok
  exact (happly (fun _ => Sample.written) (by simp)).1 { path := "notes.txt", state := .absent } (by decide) (by decide)

end AnimaCore.FilesystemCheckpoints
