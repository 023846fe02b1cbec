import AnimaCore.FilesystemCheckpoints.Lineage

/-!
# AnimaCore.FilesystemCheckpoints.SafeRestore — restoring from single witnesses

`prepare_safe_restore`: one witness for each changed path, in place of a lineage.  The two planners look at evidence and
observation in a different order, and agree on what one acknowledged change amounts to.
-/

namespace AnimaCore.FilesystemCheckpoints

open Lib

structure MutationWitness where
  actionId : String
  checkpointId : String
  scopeDigest : String
  path : String
  disposition : MutationDisposition
  acknowledgedPostimage : FileState
  deriving DecidableEq

structure RestoreCodec extends LineageCodec where
  witnessesSize : List MutationWitness → ℕ

def MutationWitness.validTransition (witness : MutationWitness) (target : FileState) : Bool :=
  match witness.disposition with
  | .created => !target.isFile && witness.acknowledgedPostimage.isFile
  | .replaced => witness.acknowledgedPostimage.isFile
  | .deleted => target.isFile && !witness.acknowledgedPostimage.isFile
  | .uncertain => true

/-- `map_err(|_| CheckpointError::InvalidWitness)`. -/
def CheckpointResult.orInvalidWitness {α : Type} (r : CheckpointResult α) : CheckpointResult α :=
  match r with
  | .ok a => .ok a
  | .error _ => .error .invalidWitness

/-- One turn of the loop over the witnesses: the evidence by path key, and the bytes witnessed. -/
def addWitness (codec : EntryCodec) (checkpoint : FilesystemCheckpoint) (targets : Table String FileState)
    (inventory : List (String × ℕ)) (acc : Table String MutationWitness × ℕ) (witness : MutationWitness) :
    CheckpointResult (Table String MutationWitness × ℕ) := do
  let semantics := checkpoint.scope.pathSemantics
  (validatePath witness.path semantics).orInvalidWitness
  ensure (validCheckpointId witness.actionId = true ∧ witness.checkpointId = checkpoint.checkpointId ∧
    witness.scopeDigest = checkpoint.scopeDigest) .invalidWitness
  let witnessedBytes ← validateState codec .strict acc.2 witness.acknowledgedPostimage
  resolveState inventory witness.acknowledgedPostimage
  let key := pathKey witness.path semantics
  let target ← okOr targets[key]? .invalidWitness
  ensure (key ∉ acc.1) .invalidWitness
  ensure (witness.validTransition target = true) .invalidWitness
  return (acc.1.insert key witness, witnessedBytes)

/-- The `match` on the observation and the evidence of an entry. -/
def witnessVerdict (target : FileState) (evidence : Option MutationWitness) : Option FileState → Verdict
  | none => .conflict .incompleteObservation
  | some state =>
    if state = target then .untouched
    else match evidence with
      | none => .conflict .missingEvidence
      | some witness =>
        if witness.disposition = .uncertain then .conflict .uncertain
        else if state ≠ witness.acknowledgedPostimage then .conflict .dirty
        else if target = .absent ∧ witness.disposition ≠ .created then .conflict .unprovenCreation
        else .operation state

def witnessProposal (checkpoint : FilesystemCheckpoint) (current : List CheckpointEntry)
    (evidence : Table String MutationWitness) : RestoreProposal :=
  let semantics := checkpoint.scope.pathSemantics
  let judge := fun (e : CheckpointEntry) =>
    let key := pathKey e.path semantics
    witnessVerdict e.state evidence[key]? (statesByKey current semantics)[key]?
  { checkpointId := checkpoint.checkpointId, scopeDigest := checkpoint.scopeDigest
    operations := checkpoint.entries.filterMap fun e => (judge e).toOperation e
    conflicts := checkpoint.entries.filterMap fun e => (judge e).toConflict e }

def prepareSafeRestore (codec : RestoreCodec) (checkpoint : FilesystemCheckpoint) (expectedScope : CheckpointScope)
    (objects : List CheckpointBlob) (current : List CheckpointEntry) (witnesses : List MutationWitness) :
    CheckpointResult RestoreProposal := do
  let entryCodec := codec.toEntryCodec
  validateCheckpointShape entryCodec .strict checkpoint expectedScope
  let semantics := checkpoint.scope.pathSemantics
  validateEntries entryCodec .strict semantics false current
  ensure (witnesses.length ≤ maxCheckpointEntries) .budget
  boundedJson (codec.witnessesSize witnesses)
  let inventory ← validateObjects entryCodec objects
  checkpoint.entries.forM fun e => resolveState inventory e.state
  let targets := statesByKey checkpoint.entries semantics
  current.forM fun e => resolveState inventory e.state
  let acc ← witnesses.foldlM (addWitness entryCodec checkpoint targets inventory) (∅, 0)
  let proposal := witnessProposal checkpoint current acc.1
  boundedJson (codec.proposalSize proposal)
  return proposal

/-! ## The witnesses -/

section

variable {codec : RestoreCodec} {checkpoint : FilesystemCheckpoint} {expectedScope : CheckpointScope}
  {objects : List CheckpointBlob} {current : List CheckpointEntry} {witnesses : List MutationWitness}
  {lineage : MutationLineage} {expectedHead : ExpectedLineageHead} {p q : RestoreProposal}

def MutationWitness.key (witness : MutationWitness) (checkpoint : FilesystemCheckpoint) : String :=
  pathKey witness.path checkpoint.scope.pathSemantics

theorem witnesses_spec {targets : Table String FileState} {inventory : List (String × ℕ)}
    {acc : Table String MutationWitness × ℕ}
    (h : witnesses.foldlM (addWitness codec.toEntryCodec checkpoint targets inventory) (∅, 0) = .ok acc) :
    (∀ key : String, acc.1[key]? = witnesses.find? fun w => decide (w.key checkpoint = key)) ∧
      (witnesses.map (·.key checkpoint)).Nodup ∧
      ∀ w ∈ witnesses, ∃ target, targets[w.key checkpoint]? = some target ∧ w.validTransition target = true := by
  refine foldlM_induction (P := fun pre (acc : Table String MutationWitness × ℕ) =>
    (∀ key : String, acc.1[key]? = pre.find? fun w => decide (w.key checkpoint = key)) ∧
      (pre.map (·.key checkpoint)).Nodup ∧
      ∀ w ∈ pre, ∃ target, targets[w.key checkpoint]? = some target ∧ w.validTransition target = true) h ?_ ?_
  · exact ⟨fun key => by simp, List.nodup_nil, by simp⟩
  · intro pre witness post before after _ hbefore hstep
    obtain ⟨hevidence, hnd, hvalid⟩ := hbefore
    simp only [addWitness, bind_eq_ok, ensure_eq_ok, okOr_eq_ok] at hstep
    obtain ⟨_, _, _, _, _, _, _, _, target, htarget, _, hnew, _, htransition, hstep⟩ := hstep
    cases hstep
    have hfresh : pre.find? (fun w => decide (w.key checkpoint = witness.key checkpoint)) = none := by
      rw [← hevidence]
      exact Table.not_mem_iff_getElem?_eq_none.mp hnew
    refine ⟨fun key => ?_, ?_, ?_⟩
    · show (before.1.insert (witness.key checkpoint) witness)[key]? = _
      rw [Table.getElem?_insert_eq, List.find?_append, ← hevidence]
      by_cases hkey : witness.key checkpoint = key
      · subst hkey
        rw [if_pos rfl, hevidence, hfresh]
        simp
      · rw [if_neg hkey]
        simp [hkey]
    · rw [List.map_append, List.nodup_append_comm]
      refine List.nodup_cons.mpr ⟨?_, hnd⟩
      intro hmem
      obtain ⟨w, hw, heq⟩ := List.mem_map.mp hmem
      have := List.find?_eq_none.mp hfresh w hw
      simp [heq] at this
    · intro w hw
      rcases List.mem_append.mp hw with hw | hw
      · exact hvalid w hw
      · rw [List.mem_singleton.mp hw]
        exact ⟨target, htarget, htransition⟩

/-! ## The same evidence as a lineage -/

/-- The state that the checkpoint records of a path. -/
def checkpointState (checkpoint : FilesystemCheckpoint) (path : String) : FileState :=
  (statesByKey checkpoint.entries checkpoint.scope.pathSemantics)[pathKey path checkpoint.scope.pathSemantics]?.getD .absent

/-- The disposition of a witness fits the checkpoint state of its path. -/
def MutationWitness.Consistent (witness : MutationWitness) (checkpoint : FilesystemCheckpoint) : Prop :=
  match witness.disposition with
  | .created => checkpointState checkpoint witness.path = .absent
  | .replaced => (checkpointState checkpoint witness.path).isFile = true
  | .deleted => (checkpointState checkpoint witness.path).isFile = true
  | .uncertain => False

/-- The acknowledged change that a witness stands for: from the checkpoint state to the witnessed one. -/
def MutationWitness.toStep (witness : MutationWitness) (checkpoint : FilesystemCheckpoint) : LineageStep :=
  { outcome := .acknowledged
    change := { path := witness.path, disposition := witness.disposition
                observedPreimage := checkpointState checkpoint witness.path
                acknowledgedPostimage := some witness.acknowledgedPostimage } }

theorem filter_key_eq {α : Type} {key : α → String} {l : List α} (hnd : (l.map key).Nodup) (k : String) :
    l.filter (fun a => decide (key a = k)) = (l.find? fun a => decide (key a = k)).toList := by
  induction l with
  | nil => rfl
  | cons a l ih =>
    rw [List.map_cons, List.nodup_cons] at hnd
    rw [List.filter_cons, List.find?_cons]
    by_cases ha : key a = k
    · have hrest : l.filter (fun b => decide (key b = k)) = [] := by
        rw [List.filter_eq_nil_iff]
        intro b hb hkey
        rw [decide_eq_true_eq] at hkey
        exact hnd.1 (List.mem_map.mpr ⟨b, hb, hkey.trans ha.symm⟩)
      simp [ha, hrest]
    · simp [ha, ih hnd.2]

theorem stepsOn_witnessed (hsteps : lineage.steps.Perm (witnesses.map (·.toStep checkpoint)))
    (hnd : (witnesses.map (·.key checkpoint)).Nodup) (key : String) :
    lineage.stepsOn checkpoint.scope.pathSemantics key =
      ((witnesses.find? fun w => decide (w.key checkpoint = key)).map (·.toStep checkpoint)).toList := by
  have hperm : (lineage.stepsOn checkpoint.scope.pathSemantics key).Perm
      ((witnesses.filter fun w => decide (w.key checkpoint = key)).map (·.toStep checkpoint)) := by
    have := hsteps.filter fun step => decide (pathKey step.change.path checkpoint.scope.pathSemantics = key)
    rw [List.filter_map] at this
    exact this
  rw [filter_key_eq hnd] at hperm
  cases hfind : witnesses.find? fun w => decide (w.key checkpoint = key) with
  | none =>
    rw [hfind] at hperm
    exact List.perm_nil.mp hperm
  | some w =>
    rw [hfind] at hperm
    exact List.perm_singleton.mp hperm

theorem chain_witnessed {w : MutationWitness} (hcons : w.Consistent checkpoint) :
    let target := checkpointState checkpoint w.path
    let chain := (Chain.start target (w.toStep checkpoint)).next (w.toStep checkpoint)
    chain.uncertain = false ∧ chain.discontinuous = false ∧
      chain.lastAcknowledgement = some w.acknowledgedPostimage ∧ (target = .absent → chain.provenCreation = true) := by
  intro target chain
  refine ⟨?_, ?_, rfl, ?_⟩
  · show (false || (w.toStep checkpoint).isUncertain) = false
    unfold LineageStep.isUncertain MutationWitness.toStep
    unfold MutationWitness.Consistent at hcons
    cases hdisp : w.disposition with
    | uncertain => simp [hdisp] at hcons
    | created => rfl
    | replaced => rfl
    | deleted => rfl
  · show (false || (target != checkpointState checkpoint w.path)) = false
    simp [target]
  · intro habsent
    have hcreated : w.disposition = .created := by
      unfold MutationWitness.Consistent at hcons
      have habsent : checkpointState checkpoint w.path = .absent := habsent
      cases hdisp : w.disposition with
      | created => rfl
      | replaced => simp [hdisp, habsent, FileState.isFile] at hcons
      | deleted => simp [hdisp, habsent, FileState.isFile] at hcons
      | uncertain => simp [hdisp] at hcons
    show (w.toStep checkpoint).provesCreation target = true
    unfold LineageStep.provesCreation MutationWitness.toStep
    have hpre : checkpointState checkpoint w.path = .absent := habsent
    simp [habsent, hpre, hcreated]

/-- **The verdicts on one acknowledged change.**  They differ only where the entry is observed as recorded and the
witness says otherwise. -/
theorem verdict_witnessed {w : MutationWitness} (hcons : w.Consistent checkpoint) (observation : Option FileState) :
    let target := checkpointState checkpoint w.path
    let chain := (Chain.start target (w.toStep checkpoint)).next (w.toStep checkpoint)
    verdict target (some chain) observation = witnessVerdict target (some w) observation ∨
      (observation = some target ∧ target ≠ w.acknowledgedPostimage ∧
        verdict target (some chain) observation = .conflict .dirty ∧
        witnessVerdict target (some w) observation = .untouched) := by
  intro target chain
  obtain ⟨huncertain, hdiscontinuous, hlast, hcreation⟩ := chain_witnessed hcons
  have hdisp : w.disposition ≠ .uncertain := by
    intro hdisp
    unfold MutationWitness.Consistent at hcons
    simp [hdisp] at hcons
  have hcreated : ¬ (target = .absent ∧ w.disposition ≠ .created) := by
    rintro ⟨habsent, hne⟩
    unfold MutationWitness.Consistent at hcons
    have habsent : checkpointState checkpoint w.path = .absent := habsent
    cases hw : w.disposition with
    | created => exact hne hw
    | replaced => simp [hw, habsent, FileState.isFile] at hcons
    | deleted => simp [hw, habsent, FileState.isFile] at hcons
    | uncertain => exact hdisp hw
  have hproven : ¬ (target = .absent ∧ chain.provenCreation = false) := by
    rintro ⟨habsent, hfalse⟩
    rw [hcreation habsent] at hfalse
    cases hfalse
  unfold verdict witnessVerdict
  dsimp only
  rw [if_neg (ne_true_of_eq_false huncertain), if_neg (ne_true_of_eq_false hdiscontinuous)]
  cases observation with
  | none => exact .inl rfl
  | some state =>
    dsimp only
    rw [hlast, if_neg hdisp, if_neg hcreated, if_neg hproven]
    by_cases hpost : state = w.acknowledgedPostimage
    · left
      rw [if_neg (by simp [hpost]), if_neg (not_not.mpr hpost)]
    · have hdirty : some w.acknowledgedPostimage ≠ some state := fun h => hpost (Option.some.inj h).symm
      rw [if_pos hdirty, if_pos hpost]
      by_cases htarget : state = target
      · right
        refine ⟨congrArg some htarget, ?_, rfl, if_pos htarget⟩
        intro h
        exact hpost (htarget.trans h)
      · left
        rw [if_neg htarget]

/-! ## The proposals -/

theorem prepareSafeRestore_eq_ok
    (h : prepareSafeRestore codec checkpoint expectedScope objects current witnesses = .ok p) :
    ∃ evidence : Table String MutationWitness, p = witnessProposal checkpoint current evidence ∧
      (checkpoint.entries.map fun e => pathKey e.path checkpoint.scope.pathSemantics).Nodup ∧
      (∀ key : String, evidence[key]? = witnesses.find? fun w => decide (w.key checkpoint = key)) ∧
      (witnesses.map (·.key checkpoint)).Nodup := by
  simp only [prepareSafeRestore, bind_eq_ok] at h
  obtain ⟨_, hshape, _, _, _, _, _, _, _, _, _, _, _, _, acc, hacc, _, _, hout⟩ := h
  simp only [validateCheckpointShape, bind_eq_ok] at hshape
  obtain ⟨_, _, _, _, _, _, _, hentries, _⟩ := hshape
  obtain ⟨hevidence, hnd, -⟩ := witnesses_spec hacc
  cases hout
  exact ⟨acc.1, rfl, validateEntries_nodup hentries, hevidence, hnd⟩

theorem entryVerdict_witnessed {evidence : Table String MutationWitness} {entry : CheckpointEntry}
    (hkeys : (checkpoint.entries.map fun e => pathKey e.path checkpoint.scope.pathSemantics).Nodup)
    (hevidence : ∀ key : String, evidence[key]? = witnesses.find? fun w => decide (w.key checkpoint = key))
    (hnd : (witnesses.map (·.key checkpoint)).Nodup) (hcons : ∀ w ∈ witnesses, w.Consistent checkpoint)
    (hsteps : lineage.steps.Perm (witnesses.map (·.toStep checkpoint))) (hentry : entry ∈ checkpoint.entries) :
    let key := pathKey entry.path checkpoint.scope.pathSemantics
    let single := witnessVerdict entry.state evidence[key]? (statesByKey current checkpoint.scope.pathSemantics)[key]?
    entryVerdict checkpoint current lineage entry = single ∨
      (entryVerdict checkpoint current lineage entry = .conflict .dirty ∧ single = .untouched) := by
  intro key single
  rw [entryVerdict_eq hkeys hentry, stepsOn_witnessed hsteps hnd]
  show verdict entry.state _ _ = witnessVerdict entry.state evidence[key]? _ ∨ _ ∧
    witnessVerdict entry.state evidence[key]? _ = _
  rw [hevidence key]
  cases hfind : witnesses.find? fun w => decide (w.key checkpoint = key) with
  | none =>
    left
    cases (statesByKey current checkpoint.scope.pathSemantics)[key]? <;> rfl
  | some w =>
    have hw : w ∈ witnesses := List.mem_of_find?_eq_some hfind
    have hkey : w.key checkpoint = key := by simpa using List.find?_some hfind
    have hstate : checkpointState checkpoint w.path = entry.state := by
      unfold checkpointState
      rw [show pathKey w.path checkpoint.scope.pathSemantics = key from hkey,
        (statesByKey_eq_some hkeys).mpr ⟨entry, hentry, rfl, rfl⟩]
      rfl
    have hverdict := verdict_witnessed (hcons w hw) (statesByKey current checkpoint.scope.pathSemantics)[key]?
    dsimp only at hverdict
    rw [hstate] at hverdict
    exact hverdict.imp_right fun h => ⟨h.2.2.1, h.2.2.2⟩

/-- **The two planners agree**: on witnesses that fit the checkpoint, and on a lineage that makes one acknowledged
change of each of them, in any order, they propose the same operations, and the lineage planner has every conflict of the
other. -/
theorem planners_agree (hp : prepareSafeRestore codec checkpoint expectedScope objects current witnesses = .ok p)
    (hcons : ∀ w ∈ witnesses, w.Consistent checkpoint)
    (hsteps : lineage.steps.Perm (witnesses.map (·.toStep checkpoint)))
    (hq : prepareSafeRestoreWithLineage codec.toLineageCodec checkpoint expectedScope objects current lineage
      expectedHead = .ok q) :
    q.operations = p.operations ∧ ∀ path ∈ p.conflicts.map (·.path), path ∈ q.conflicts.map (·.path) := by
  obtain ⟨evidence, rfl, hkeys, hevidence, hnd⟩ := prepareSafeRestore_eq_ok hp
  obtain ⟨rfl, -, -⟩ := prepare_eq_ok hq
  constructor
  · refine List.filterMap_congr fun entry hentry => ?_
    rcases entryVerdict_witnessed hkeys hevidence hnd hcons hsteps hentry with hsame | ⟨hdirty, huntouched⟩
    · rw [hsame]
    · rw [hdirty]
      exact (congrArg (Verdict.toOperation entry) huntouched).symm
  · intro path hpath
    obtain ⟨conflict, hconflict, rfl⟩ := List.mem_map.mp hpath
    obtain ⟨entry, hentry, hjudged⟩ := List.mem_filterMap.mp hconflict
    refine List.mem_map.mpr ⟨conflict, List.mem_filterMap.mpr ⟨entry, hentry, ?_⟩, rfl⟩
    rcases entryVerdict_witnessed hkeys hevidence hnd hcons hsteps hentry with hsame | ⟨-, huntouched⟩
    · rw [hsame]
      exact hjudged
    · dsimp only at hjudged
      rw [huntouched] at hjudged
      cases hjudged

end

namespace Sample

/-- The creation of the sample action, as a single witness. -/
def witness : MutationWitness :=
  { actionId := "action", checkpointId := "checkpoint", scopeDigest := checkpoint.scopeDigest, path := "notes.txt"
    disposition := .created, acknowledgedPostimage := written }

def restoreCodec : RestoreCodec := { codec with witnessesSize := fun _ => 512 }

end Sample

/-- The witness and the action of the sample lead to the same proposal. -/
theorem sample_planners_agree :
    ∃ p q, prepareSafeRestore Sample.restoreCodec Sample.checkpoint Sample.scope Sample.objects
        [{ path := "notes.txt", state := Sample.written }] [Sample.witness] = .ok p ∧
      prepareSafeRestoreWithLineage Sample.codec Sample.checkpoint Sample.scope Sample.objects
        [{ path := "notes.txt", state := Sample.written }] Sample.lineage Sample.expectedHead = .ok q ∧
      p.operations = [{ path := "notes.txt", expectedCurrent := Sample.written, desired := .absent }] ∧
      q.operations = p.operations ∧ ∀ path ∈ p.conflicts.map (·.path), path ∈ q.conflicts.map (·.path) := by
  have hp : prepareSafeRestore Sample.restoreCodec Sample.checkpoint Sample.scope Sample.objects
      [{ path := "notes.txt", state := Sample.written }] [Sample.witness] = .ok Sample.proposal := by
    decide +kernel
  have hq : prepareSafeRestoreWithLineage Sample.restoreCodec.toLineageCodec Sample.checkpoint Sample.scope Sample.objects
      [{ path := "notes.txt", state := Sample.written }] Sample.lineage Sample.expectedHead = .ok Sample.proposal := by
    decide +kernel
  have hstate : checkpointState Sample.checkpoint "notes.txt" = .absent := by decide +kernel
  have hcons : ∀ w ∈ [Sample.witness], w.Consistent Sample.checkpoint := by
    intro w hw
    rw [List.mem_singleton.mp hw]
    exact hstate
  have hsteps : Sample.lineage.steps.Perm ([Sample.witness].map (·.toStep Sample.checkpoint)) := by
    have heq : Sample.lineage.steps = [Sample.witness].map (·.toStep Sample.checkpoint) := by decide +kernel
    rw [heq]
  exact ⟨_, _, hp, hq, rfl, planners_agree hp hcons hsteps hq⟩

end AnimaCore.FilesystemCheckpoints
