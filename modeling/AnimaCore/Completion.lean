import AnimaCore.Base
import AnimaCore.Lib.Machine
import AnimaCore.Lib.Table

/-!
# AnimaCore.Completion — the review before a final answer

`completion.rs`: a run's edits, read-backs and checks are recorded while they settle, and one reminder is given before
the final answer when some evidence is missing.

* Every change of a tracked file takes the next `revision`; a read-back counts only through a checkpoint taken at the
  current revision.
* `beginCheck` hands out an attempt with the versions of the files it covers; `finishCheck` settles the attempt that was
  begun last, once.
* Counters are `u64` and saturate.  The reminder is modelled by the gaps it lists; their wording is left out.
* `Session.call` makes one call and keeps it, with its answer and the state before it.
-/

namespace AnimaCore.Completion

open Lib

/-- `u64::saturating_add(1)`. -/
def saturatingNext (n : ℕ) : ℕ := min (n + 1) (2 ^ 64 - 1)

/-! ## Records -/

/-- `CompletionFile`: the workspace and the path. -/
abbrev CompletionFile := String × String

inductive CompletionObservation
  | edited (path : String) (requiresCheck : Bool)
  | readBack (path : String)
  | commandFinished (passed : Bool)
  | verificationFinished (passed : Bool)
  | tasksSaved (unfinished : ℕ)
  deriving DecidableEq, Repr

inductive CompletionCheckOutcome
  | passed
  | failed
  | unknown
  deriving DecidableEq, Repr

/-- `CompletionAttempt`: a version is a file, its revision and its digest. -/
structure CompletionAttempt where
  id : ℕ
  contract : String
  versions : List (CompletionFile × ℕ × Option String)
  deriving DecidableEq, Repr

structure FileState where
  revision : ℕ
  digest : Option String
  unread : Bool
  requiresCheck : Bool
  requiredContracts : List String
  deriving DecidableEq, Repr

structure CheckState where
  attempt : CompletionAttempt
  outcome : CompletionCheckOutcome
  settled : Bool
  deriving DecidableEq, Repr

structure ReviewState where
  files : Table CompletionFile FileState := ∅
  checks : Table String CheckState := ∅
  overflow : Bool := false
  ordinaryFailure : Bool := false
  unfinished : ℕ := 0
  prompted : Bool := false
  revision : ℕ := 0
  nextAttempt : ℕ := 0

structure Feedback where
  unread : Bool
  unchecked : List String
  ordinaryFailure : Bool
  overflow : Bool
  unfinished : ℕ
  deriving DecidableEq, Repr

/-! ## Operations -/

/-- `valid_id`. -/
def validContract (id : String) : Bool := id != "" && decide (id.utf8ByteSize ≤ 128) && !id.toList.any isControl

def boundedDigest (digest : Option String) : Option String := digest.filter validContract

namespace ReviewState

/-- The bounds `record_edit` checks. -/
def acceptsEdit (s : ReviewState) (file : CompletionFile) (requiredContracts : List String) : Bool :=
  file.2 != "" && decide (file.2.utf8ByteSize ≤ 4096) && decide (file.1.utf8ByteSize ≤ 4096) &&
    !file.2.toList.any isControl && !file.1.toList.any isControl &&
    (decide (s.files.size < 64) || s.files[file]?.isSome) && decide (requiredContracts.length ≤ 32) &&
    requiredContracts.all validContract

def recordEdit (s : ReviewState) (file : CompletionFile) (digest : Option String) (requiresCheck : Bool)
    (requiredContracts : List String) : ReviewState :=
  if s.acceptsEdit file requiredContracts then
    { s with
      revision := saturatingNext s.revision
      files := s.files.insert file
        { revision := saturatingNext s.revision, digest := boundedDigest digest, unread := true, requiresCheck
          requiredContracts } }
  else { s with overflow := true }

def refreshFile (s : ReviewState) (file : CompletionFile) (digest : Option String) : ReviewState :=
  match s.files[file]? with
  | some current =>
    if current.digest = boundedDigest digest then s
    else
      { s with
        revision := saturatingNext s.revision
        files := s.files.insert file
          { current with digest := boundedDigest digest, revision := saturatingNext s.revision, unread := true } }
  | none => s

/-- The files with `file` read. -/
def markRead (s : ReviewState) (file : CompletionFile) : ReviewState :=
  { s with files := s.files.modify file fun current => { current with unread := false } }

def readBack (s : ReviewState) (checkpoint : ℕ) (file : CompletionFile) (digest : Option String) : ReviewState :=
  if checkpoint ≠ s.revision ∨ digest = none then s
  else if s.files[file]?.map (·.digest) = some digest then s.markRead file
  else s

/-- A command failed while some file waits for a check. -/
def noteCommand (s : ReviewState) (passed : Bool) : ReviewState :=
  if passed = false ∧ (s.files.toList.any fun entry => entry.2.requiresCheck) = true then
    { s with ordinaryFailure := true }
  else s

/-- The digest an observed edit is recorded with. -/
def observedDigest (s : ReviewState) : Option String := some s!"observed-edit-{saturatingNext s.revision}"

def observeAfter (s : ReviewState) (checkpoint : ℕ) : CompletionObservation → ReviewState
  | .edited path requiresCheck => s.recordEdit ("", path) s.observedDigest requiresCheck []
  | .readBack path => if checkpoint ≠ s.revision then s else s.markRead ("", path)
  | .commandFinished passed => if checkpoint ≠ s.revision then s else s.noteCommand passed
  | .verificationFinished passed => if checkpoint ≠ s.revision then s else s.noteCommand passed
  | .tasksSaved unfinished => { s with unfinished }

/-- The bounds `begin_check` checks. -/
def acceptsCheck (s : ReviewState) (contract : String) (files : List CompletionFile) : Bool :=
  validContract contract && decide (files.length ≤ 64) &&
    (decide (s.checks.size < 32) || s.checks[contract]?.isSome)

def versionsOf (s : ReviewState) (files : List CompletionFile) : List (CompletionFile × ℕ × Option String) :=
  files.filterMap fun file => s.files[file]?.map fun current => (file, current.revision, current.digest)

def beginCheck (s : ReviewState) (contract : String) (files : List CompletionFile) :
    CompletionAttempt × ReviewState :=
  let valid := s.acceptsCheck contract files
  let attempt : CompletionAttempt :=
    { id := saturatingNext s.nextAttempt, contract, versions := if valid then s.versionsOf files else [] }
  (attempt,
    if valid then
      { s with
        nextAttempt := saturatingNext s.nextAttempt
        checks := s.checks.insert contract { attempt, outcome := .unknown, settled := false } }
    else { s with nextAttempt := saturatingNext s.nextAttempt, overflow := true })

/-- Whether the files an attempt captured are as they were, and all have a digest. -/
def unchanged (s : ReviewState) (attempt : CompletionAttempt) : Bool :=
  !attempt.versions.isEmpty && attempt.versions.all fun version =>
    version.2.2.isSome && s.files[version.1]?.any fun current =>
      current.revision == version.2.1 && current.digest == version.2.2

def finishCheck (s : ReviewState) (attempt : CompletionAttempt) (outcome : CompletionCheckOutcome) : ReviewState :=
  match s.checks[attempt.contract]? with
  | some latest =>
    if latest.attempt.id = attempt.id ∧ latest.settled = false then
      let outcome := if outcome = .passed ∧ s.unchanged attempt = false then .unknown else outcome
      { s with checks := s.checks.insert attempt.contract { latest with outcome, settled := true } }
    else s
  | none => s

/-- Whether a check covers `path` as `file` is now, and passed. -/
def coveredBy (s : ReviewState) (path : CompletionFile) (file : FileState) (contract : String) : Bool :=
  s.checks[contract]?.any fun check =>
    check.outcome == .passed && check.attempt.versions.any fun version =>
      version.1 == path && version.2.1 == file.revision && version.2.2 == file.digest

/-- A file that requires a check and has no current evidence for it. -/
def uncheckedFile (s : ReviewState) (path : CompletionFile) (file : FileState) : Bool :=
  file.requiresCheck && (file.digest.isNone || file.requiredContracts.isEmpty ||
    file.requiredContracts.any fun contract => !s.coveredBy path file contract)

def takeFeedback (s : ReviewState) : Option Feedback × ReviewState :=
  let unread := s.files.toList.any fun entry => entry.2.unread
  let unchecked := ((s.files.toList.filter fun entry => s.uncheckedFile entry.1 entry.2).map fun entry =>
    String.ofList (entry.1.2.toList.take 160)).take 5
  if s.prompted = true ∨
      (unread = false ∧ s.overflow = false ∧ unchecked = [] ∧ s.ordinaryFailure = false ∧ s.unfinished = 0) then
    (none, s)
  else
    (some { unread, unchecked, ordinaryFailure := s.ordinaryFailure, overflow := s.overflow
            unfinished := s.unfinished }, { s with prompted := true })

end ReviewState

/-! ## Calls one after the other -/

inductive ReviewCall
  | checkpoint
  | observeAfter (checkpoint : ℕ) (observation : CompletionObservation)
  | recordEdit (file : CompletionFile) (digest : Option String) (requiresCheck : Bool) (requiredContracts : List String)
  | refreshFile (file : CompletionFile) (digest : Option String)
  | readBack (checkpoint : ℕ) (file : CompletionFile) (digest : Option String)
  | noteGap
  | beginCheck (contract : String) (files : List CompletionFile)
  | finishCheck (attempt : CompletionAttempt) (outcome : CompletionCheckOutcome)
  | takeFeedback
  deriving DecidableEq, Repr

inductive ReviewAnswer
  | done
  | checkpoint (checkpoint : ℕ)
  | attempt (attempt : CompletionAttempt)
  | feedback (feedback : Option Feedback)
  deriving DecidableEq, Repr

def ReviewState.exec (s : ReviewState) : ReviewCall → ReviewAnswer × ReviewState
  | .checkpoint => (.checkpoint s.revision, s)
  | .observeAfter checkpoint observation => (.done, s.observeAfter checkpoint observation)
  | .recordEdit file digest requiresCheck contracts => (.done, s.recordEdit file digest requiresCheck contracts)
  | .refreshFile file digest => (.done, s.refreshFile file digest)
  | .readBack checkpoint file digest => (.done, s.readBack checkpoint file digest)
  | .noteGap => (.done, { s with overflow := true })
  | .beginCheck contract files => (.attempt (s.beginCheck contract files).1, (s.beginCheck contract files).2)
  | .finishCheck attempt outcome => (.done, s.finishCheck attempt outcome)
  | .takeFeedback => (.feedback s.takeFeedback.1, s.takeFeedback.2)

/-- A call with its answer and the state before it. -/
structure Step where
  before : ReviewState
  call : ReviewCall
  answer : ReviewAnswer

/-- A review and the calls made on it, oldest first. -/
structure Session where
  state : ReviewState := {}
  history : List Step := []

def Session.call (s : Session) (c : ReviewCall) : Session :=
  { state := (s.state.exec c).2
    history := s.history ++ [{ before := s.state, call := c, answer := (s.state.exec c).1 }] }

/-- The fields of checkpoints and attempts are private: a caller has only those that were handed out to it. -/
def Session.Honest (s : Session) : ReviewCall → Prop
  | .observeAfter checkpoint _ => ∃ y ∈ s.history, y.answer = .checkpoint checkpoint
  | .readBack checkpoint _ _ => ∃ y ∈ s.history, y.answer = .checkpoint checkpoint
  | .finishCheck attempt _ => ∃ y ∈ s.history, y.answer = .attempt attempt
  | _ => True

end AnimaCore.Completion
