import AnimaCore.Base
import AnimaCore.Lib.Machine
import AnimaCore.Lib.Table

/-!
# AnimaCore.ToolRpc — calls of a tool program

`tool_rpc.rs`: a program written by a model runs in a cell and asks its host for tool calls, one frame of bytes each.
`RpcProgram` is the host's bookkeeping of one cell: which frames are dispatched, what they settled as, and what the
whole program may report.

* `parse` is `serde_json::from_slice`: the request a frame stands for, if it is one.
* `RpcProgram.admitFrame` takes a frame, `RpcProgram.finish` the outcome of a dispatched call; both return the program they
  leave behind next to their answer.
* `play` runs calls one after the other and keeps the answers.
-/

namespace AnimaCore.ToolRpc

open Lib

/-! ## Bounds -/

def maxRpcFrameBytes : ℕ := 64 * 1024

def maxRpcDepth : ℕ := 16

def maxRpcNodes : ℕ := 4096

def maxRpcAttempts : ℕ := 128

def configuredMaxCalls : ℕ := 50

def maxEffectiveCalls : ℕ := 49

def maxRpcResultBytes : ℕ := 64 * 1024

def maxRpcTotalResultBytes : ℕ := 1024 * 1024

/-! ## Frames -/

/-- `serde_json::Number`; a finite float is the number it stands for. -/
inductive Number
  | posInt (n : ℕ)
  | negInt (n : ℤ)
  | float (x : ℚ)
  deriving DecidableEq

mutual

inductive Value
  | null
  | bool (b : Bool)
  | number (n : Number)
  | string (s : String)
  | array (items : Items)
  | object (fields : Fields)
  deriving DecidableEq

/-- `Vec<Value>`. -/
inductive Items
  | nil
  | cons (item : Value) (rest : Items)
  deriving DecidableEq

/-- `Map<String, Value>`, in the order of its keys. -/
inductive Fields
  | nil
  | cons (key : String) (value : Value) (rest : Fields)
  deriving DecidableEq

end

def Items.values : Items → List Value
  | .nil => []
  | .cons item rest => item :: rest.values

def Fields.values : Fields → List Value
  | .nil => []
  | .cons _ value rest => value :: rest.values

structure RpcRequest where
  version : ℕ
  cellEpoch : String
  sequence : ℕ
  tool : String
  args : Fields
  deriving DecidableEq

/-- `RpcError`, as far as frames and outcomes raise it. -/
inductive RpcError
  | invalidRequest
  | frameLimit
  | depthLimit
  | nodeLimit
  | toolUnavailable
  | attemptLimit
  | callLimit
  | sequenceConflict
  | sequenceOrder
  | outcomePending
  | unknownSequence
  | outcomeAlreadySettled
  | resultLimit
  | outputLimit
  deriving DecidableEq, Repr

/-- The children of a value, which the tree walk visits next. -/
def Value.children : Value → List Value
  | .array items => items.values
  | .object fields => fields.values
  | _ => []

/-- The walk over the arguments: a stack of values with their depth, the last one pushed on top.  `budget` is how many
nodes `MAX_RPC_NODES` still leaves. -/
def checkTree : ℕ → List (Value × ℕ) → Except RpcError Unit
  | _, [] => .ok ()
  | 0, _ :: _ => .error .nodeLimit
  | budget + 1, (value, depth) :: pending =>
    if maxRpcDepth < depth then .error .depthLimit
    else checkTree budget ((value.children.map fun child => (child, depth + 1)).reverse ++ pending)

/-- `valid_name` of `decode_rpc_request`: `value.trim() == value` says that neither end is white space. -/
def validName (value : String) : Bool :=
  value != "" && decide (value.utf8ByteSize ≤ 128) && !value.toList.head?.any isWhitespace &&
    !value.toList.getLast?.any isWhitespace && !value.toList.any isControl

def decodeRpcRequest (parse : List UInt8 → Option RpcRequest) (bytes : List UInt8) : Except RpcError RpcRequest := do
  ensure (bytes.length ≤ maxRpcFrameBytes) .frameLimit
  let request ← okOr (parse bytes) .invalidRequest
  ensure (request.version = 1 ∧ request.sequence ≠ 0 ∧ request.sequence ≤ maxRpcAttempts ∧
    validName request.cellEpoch = true ∧ validName request.tool = true) .invalidRequest
  -- the header object and its five fields are six nodes
  checkTree (maxRpcNodes - 6) (request.args.values.map fun value => (value, 3)).reverse
  return request

/-! ## The bookkeeping of one cell -/

structure RpcCallOutcome where
  succeeded : Bool
  text : String
  effectUncertain : Bool
  deriving DecidableEq, Repr

inductive RpcAdmission
  | dispatch (request : RpcRequest)
  | replay (outcome : RpcCallOutcome)
  deriving DecidableEq

structure RpcProgram where
  capturedTools : List String
  effectiveCallLimit : ℕ
  replays : Table ℕ (RpcRequest × Option RpcCallOutcome)
  attempts : ℕ
  resultBytes : ℕ
  refusedAttempt : Bool

inductive ProgramOutcome
  | completed
  | failed
  | reviewRequired
  deriving DecidableEq, Repr

structure ProgramSummary where
  outcome : ProgramOutcome
  configuredCallLimit : ℕ
  effectiveCallLimit : ℕ
  attempts : ℕ
  dispatchedCalls : ℕ
  failedCalls : ℕ
  resultBytes : ℕ
  deriving DecidableEq, Repr

namespace RpcProgram

def new (capturedTools : List String) (remainingReceiptSlots : ℕ) : RpcProgram :=
  { capturedTools, effectiveCallLimit := min remainingReceiptSlots maxEffectiveCalls, replays := ∅, attempts := 0
    resultBytes := 0, refusedAttempt := false }

/-- A dispatched call that is not settled, or whose effect is uncertain. -/
def blockingOutcome (outcome : Option RpcCallOutcome) : Bool := outcome.all (·.effectUncertain)

variable (parse : List UInt8 → Option RpcRequest)

def admitInner (p : RpcProgram) (bytes : List UInt8) : Except RpcError (RpcAdmission × RpcProgram) := do
  let request ← decodeRpcRequest parse bytes
  ensure (request.tool ∈ p.capturedTools) .toolUnavailable
  match p.replays[request.sequence]? with
  | some (original, outcome) =>
    ensure (original = request) .sequenceConflict
    let outcome ← okOr outcome .outcomePending
    return (.replay outcome, p)
  | none =>
    ensure (request.sequence = p.replays.size + 1) .sequenceOrder
    ensure (p.replays.size < p.effectiveCallLimit) .callLimit
    ensure ((p.replays.toList.any fun entry => blockingOutcome entry.2.2) = false) .outcomePending
    return (.dispatch request, { p with replays := p.replays.insert request.sequence (request, none) })

/-- `RpcProgram::admit`. -/
def admitFrame (p : RpcProgram) (bytes : List UInt8) : Except RpcError RpcAdmission × RpcProgram :=
  if p.attempts = maxRpcAttempts then (.error .attemptLimit, { p with refusedAttempt := true })
  else
    let p := { p with attempts := p.attempts + 1 }
    match admitInner parse p bytes with
    | .ok (admission, p') => (.ok admission, p')
    | .error e => (.error e, { p with refusedAttempt := true })

/-- `RpcProgram::finish`; the sum of two lengths of stored texts does not overflow a `usize`. -/
def finish (p : RpcProgram) (sequence : ℕ) (outcome : RpcCallOutcome) : Except RpcError RpcProgram := do
  let (request, settled) ← okOr p.replays[sequence]? .unknownSequence
  ensure (settled = none) .outcomeAlreadySettled
  ensure (outcome.text.utf8ByteSize ≤ maxRpcResultBytes) .resultLimit
  ensure (p.resultBytes + outcome.text.utf8ByteSize ≤ maxRpcTotalResultBytes) .outputLimit
  return { p with resultBytes := p.resultBytes + outcome.text.utf8ByteSize
                  replays := p.replays.insert sequence (request, some outcome) }

/-- A settled call that failed, or whose effect is uncertain. -/
def failedOutcome (outcome : Option RpcCallOutcome) : Bool := outcome.any fun o => !o.succeeded || o.effectUncertain

def summary (p : RpcProgram) (scriptExitCode : Option ℤ) : ProgramSummary :=
  let outcomes := p.replays.toList.map fun entry => entry.2.2
  let uncertain := outcomes.any blockingOutcome
  let failedCalls := outcomes.countP failedOutcome
  { outcome :=
      if uncertain then .reviewRequired
      else if scriptExitCode = some 0 ∧ failedCalls = 0 ∧ p.refusedAttempt = false then .completed
      else .failed
    configuredCallLimit := configuredMaxCalls, effectiveCallLimit := p.effectiveCallLimit, attempts := p.attempts
    dispatchedCalls := p.replays.size, failedCalls, resultBytes := p.resultBytes }

end RpcProgram

/-! ## Calls one after the other -/

inductive RpcCall
  | admitFrame (bytes : List UInt8)
  | finish (sequence : ℕ) (outcome : RpcCallOutcome)
  deriving DecidableEq

inductive RpcReply
  | admitted (admission : RpcAdmission)
  | finished
  | refused (e : RpcError)
  deriving DecidableEq

def RpcProgram.call (parse : List UInt8 → Option RpcRequest) (p : RpcProgram) : RpcCall → RpcReply × RpcProgram
  | .admitFrame bytes =>
    match p.admitFrame parse bytes with
    | (.ok admission, p') => (.admitted admission, p')
    | (.error e, p') => (.refused e, p')
  | .finish sequence outcome =>
    match p.finish sequence outcome with
    | .ok p' => (.finished, p')
    | .error e => (.refused e, p)

/-- A program with the calls made on it and their answers, oldest first. -/
structure Played where
  program : RpcProgram
  history : List (RpcCall × RpcReply)

def play (parse : List UInt8 → Option RpcRequest) (s : Played) (c : RpcCall) : Played :=
  { program := (s.program.call parse c).2, history := s.history ++ [(c, (s.program.call parse c).1)] }

/-- A new program and `calls` made on it. -/
def played (parse : List UInt8 → Option RpcRequest) (tools : List String) (slots : ℕ) (calls : List RpcCall) : Played :=
  run (play parse) { program := .new tools slots, history := [] } calls

end AnimaCore.ToolRpc
