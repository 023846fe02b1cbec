import AnimaCore.AnimaMemory.Records
import AnimaCore.Lib.Forest
import AnimaCore.Lib.Table

/-!
# AnimaCore.StructuredTasks — a list of tasks as a forest

`structured_tasks.rs`: a task names its parent; a list is accepted when the parents form a forest over its tasks, a
batch of patches replaces and appends, and the active context is the active tasks with everything above them.

* `encode` is the `serde_json` text of a list of tasks, whose length is bounded.
* A lookup of what is not there (`by_id[id]`, `result[position]`) is the fault `panicked`.
* The loops that follow parents are `Lib.climb` and `Lib.mark`, with one round more than there are tasks.
* `merge_spec`: a merge is the patched tasks and then the new ones; `patches_one_at_a_time` compares it with merges of
  single patches.
-/

namespace AnimaCore.StructuredTasks

open Lib

def maxTasks : ℕ := 256

def maxTaskIdBytes : ℕ := 128

def maxTaskTextChars : ℕ := 4000

def maxTaskPayloadBytes : ℕ := 512 * 1024

inductive TaskState
  | pending
  | inProgress
  | completed
  | cancelled
  deriving DecidableEq, Repr

def TaskState.isActive (state : TaskState) : Bool := state == .pending || state == .inProgress

structure TaskRecord where
  id : String
  content : String
  status : TaskState
  activeForm : String
  parent : Option String
  deriving DecidableEq, Repr

inductive ParentChange
  | keep
  | set (parent : Option String)
  deriving DecidableEq, Repr

structure TaskPatch where
  id : String
  content : Option String
  status : Option TaskState
  activeForm : Option String
  parent : ParentChange
  deriving DecidableEq, Repr

inductive TaskError
  | invalidId
  | invalidText
  | duplicateId
  | unknownParent
  | cycle
  | budget
  | incompleteNewTask
  deriving DecidableEq, Repr

/-- How a call ends without a result: an error, or a panic. -/
inductive TaskFault
  | refused (error : TaskError)
  | panicked
  deriving DecidableEq, Repr

abbrev TaskResult (α : Type) := Except TaskFault α

structure ActiveTaskContext where
  json : Option String
  omittedForBudget : Bool
  deriving DecidableEq, Repr

/-! ## Validation -/

/-- `valid_id`. -/
def validTaskId (id : String) : Bool :=
  id != "" && decide (id.utf8ByteSize ≤ maxTaskIdBytes) && AnimaMemory.trim id == id && !id.toList.any isControl

def validText (text : String) : Bool :=
  decide ((text.toList.take (maxTaskTextChars + 1)).length ≤ maxTaskTextChars) && !trimmedEmpty text

/-- One turn of the loop that fills `by_id`. -/
def addById (byId : Table String TaskRecord) (task : TaskRecord) : TaskResult (Table String TaskRecord) := do
  ensure (validTaskId task.id = true ∧ task.parent.all validTaskId = true) (.refused .invalidId)
  ensure (validText task.content = true ∧ validText task.activeForm = true) (.refused .invalidText)
  ensure (task.id ∉ byId) (.refused .duplicateId)
  return byId.insert task.id task

def parentsOf (byId : Table String TaskRecord) (id : String) : Option (Option String) := byId[id]?.map (·.parent)

def checkParents (byId : Table String TaskRecord) (rounds : ℕ) (task : TaskRecord) : TaskResult Unit :=
  match climb (parentsOf byId) rounds [task.id] task.parent with
  | .top => .ok ()
  | .cycle => .error (.refused .cycle)
  | .unknown => .error (.refused .unknownParent)
  | .endless => .error .panicked

def validate (encode : List TaskRecord → String) (tasks : List TaskRecord) : TaskResult Unit := do
  ensure (tasks.length ≤ maxTasks) (.refused .budget)
  let byId ← tasks.foldlM addById ∅
  tasks.forM (checkParents byId (tasks.length + 1))
  ensure ((encode tasks).utf8ByteSize ≤ maxTaskPayloadBytes) (.refused .budget)

/-! ## Merging -/

/-- What the loop of `merge` carries. -/
structure MergeLoop where
  result : List TaskRecord
  positions : Table String ℕ
  changed : List String

def TaskPatch.apply (patch : TaskPatch) (task : TaskRecord) : TaskRecord :=
  { task with
    content := patch.content.getD task.content
    status := patch.status.getD task.status
    activeForm := patch.activeForm.getD task.activeForm
    parent := match patch.parent with
      | .keep => task.parent
      | .set parent => parent }

def TaskPatch.newTask (patch : TaskPatch) : TaskResult TaskRecord := do
  let content ← okOr patch.content (.refused .incompleteNewTask)
  let status ← okOr patch.status (.refused .incompleteNewTask)
  let activeForm ← okOr patch.activeForm (.refused .incompleteNewTask)
  let parent := match patch.parent with
    | .keep => none
    | .set parent => parent
  return { id := patch.id, content, status, activeForm, parent }

def MergeLoop.next (loop : MergeLoop) (patch : TaskPatch) : TaskResult MergeLoop := do
  ensure (validTaskId patch.id = true) (.refused .invalidId)
  ensure (patch.id ∉ loop.changed) (.refused .duplicateId)
  let changed := patch.id :: loop.changed
  match loop.positions[patch.id]? with
  | some position => do
    let task ← okOr loop.result[position]? .panicked
    return { loop with result := loop.result.set position (patch.apply task), changed }
  | none => do
    ensure (loop.result.length ≠ maxTasks) (.refused .budget)
    let task ← patch.newTask
    return { result := loop.result ++ [task], positions := loop.positions.insert task.id loop.result.length, changed }

def positionsOf (tasks : List TaskRecord) : Table String ℕ :=
  tasks.zipIdx.foldl (fun t p => t.insert p.1.id p.2) ∅

def merge (encode : List TaskRecord → String) (tasks : List TaskRecord) (patches : List TaskPatch) :
    TaskResult (List TaskRecord) := do
  validate encode tasks
  ensure (patches.length ≤ maxTasks) (.refused .budget)
  let loop ← patches.foldlM MergeLoop.next { result := tasks, positions := positionsOf tasks, changed := [] }
  validate encode loop.result
  return loop.result

/-! ## The active context -/

def tasksById (tasks : List TaskRecord) : Table String TaskRecord := tasks.foldl (fun t task => t.insert task.id task) ∅

def activeContext (encode : List TaskRecord → String) (tasks : List TaskRecord) (maxBytes : ℕ) :
    TaskResult ActiveTaskContext := do
  validate encode tasks
  let active := (tasks.filter (·.status.isActive)).map (·.id)
  let keep ← okOr (active.foldlM (fun keep id => mark (parentsOf (tasksById tasks)) (tasks.length + 1) keep (some id)) [])
    .panicked
  if keep = [] then return { json := none, omittedForBudget := false }
  else
    let json := encode (tasks.filter fun task => decide (task.id ∈ keep))
    if min maxBytes maxTaskPayloadBytes < json.utf8ByteSize then return { json := none, omittedForBudget := true }
    else return { json := some json, omittedForBudget := false }

end AnimaCore.StructuredTasks
