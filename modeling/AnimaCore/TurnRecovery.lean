import AnimaCore.RunDelta

/-!
# AnimaCore.TurnRecovery — the checkpoints of a turn

`turn_recovery.rs`: a host-owned turn saves a checkpoint at each boundary it crosses, before the model is called, when
the model has answered, and when the tools of the answer have settled.  A checkpoint read back is judged by `validate`,
on its own numbers; while the turn runs each checkpoint is judged by `validate_after`, against the one before it.

* `TurnRun` is the abstract turn: which `(sequence, phase, model_calls)` a run of boundaries produces.  A model call
  crosses two or three boundaries, so `model_calls` leaves an interval of sequences open at each phase, and
  `turnRun_iff` says that the run fills it without gaps.
* `u64` is ℕ: `validate` bounds both numbers by `MAX_TURN_CHECKPOINT_SEQUENCE` before it multiplies them.
* The digest of a pending call's arguments is an argument of `fromCall`.
-/

namespace AnimaCore.TurnRecovery

open Lib RunDelta

def maxTurnProgressMessages : ℕ := 24

def maxTurnProgressTextBytes : ℕ := 1024

def maxTurnCheckpointSequence : ℕ := 1000000

/-! ## Data -/

structure TurnBinding where
  rootRunId : String
  attemptRunId : String
  agentId : String
  sessionId : String
  originalInputDigest : String
  attemptInputDigest : String
  workspaceDigest : String
  configDigest : String
  automaticEligible : Bool
  deriving DecidableEq, Repr

inductive TurnPhase
  | beforeModel
  | modelResponded
  | toolsSettled
  deriving DecidableEq, Repr

structure TurnProgress where
  role : MessageRole
  text : String
  deriving DecidableEq, Repr

structure TurnToolIntent where
  callId : String
  name : String
  argumentsDigest : String
  deriving DecidableEq, Repr

structure TurnCheckpoint where
  binding : TurnBinding
  sequence : ℕ
  phase : TurnPhase
  modelCalls : ℕ
  progress : List TurnProgress
  pendingTools : List TurnToolIntent
  deriving DecidableEq, Repr

/-- The longest run of leading characters of at most `n` bytes. -/
def takeBytes : ℕ → List Char → List Char
  | _, [] => []
  | n, c :: cs => if c.utf8Size ≤ n then c :: takeBytes (n - c.utf8Size) cs else []

def TurnProgress.bounded (role : MessageRole) (text : String) : TurnProgress :=
  { role, text := String.ofList (takeBytes maxTurnProgressTextBytes text.toList) }

def TurnCheckpoint.bounded (binding : TurnBinding) (sequence : ℕ) (phase : TurnPhase) (modelCalls : ℕ)
    (messages : List Message) : TurnCheckpoint :=
  { binding, sequence, phase, modelCalls
    progress := ((messages.reverse.take maxTurnProgressMessages).reverse).map fun message =>
      .bounded message.role message.content.text
    pendingTools := [] }

/-! ## Checks -/

/-- The four digests of a binding: 64 lower-case hexadecimal digits each. -/
def hexDigest (digest : String) : Bool := digest.utf8ByteSize == 64 && digest.toList.all isHexDigit

def TurnBinding.validate (binding : TurnBinding) : Except String Unit :=
  if [binding.rootRunId, binding.attemptRunId, binding.agentId, binding.sessionId].any
        (fun id => trimmedEmpty id || decide (256 < id.utf8ByteSize)) ||
      [binding.originalInputDigest, binding.attemptInputDigest, binding.workspaceDigest, binding.configDigest].any
        (fun digest => !hexDigest digest)
  then .error "Invalid turn recovery binding"
  else .ok ()

/-- The lists of a checkpoint, as `validate` bounds them at a phase. -/
def TurnCheckpoint.withinBounds (c : TurnCheckpoint) : Bool :=
  decide (c.progress.length ≤ maxTurnProgressMessages) &&
    !c.progress.any (fun m => decide (maxTurnProgressTextBytes < m.text.utf8ByteSize)) &&
    decide (c.pendingTools.length ≤ 64) &&
    !(c.phase != .modelResponded && !c.pendingTools.isEmpty) &&
    !c.pendingTools.any fun tool => tool.callId.isEmpty || decide (256 < tool.callId.utf8ByteSize) ||
      tool.name.isEmpty || decide (256 < tool.name.utf8ByteSize) || !hexDigest tool.argumentsDigest

/-- How far the boundary of a phase lies behind the one that opens its model call. -/
def TurnPhase.offset : TurnPhase → ℕ
  | .beforeModel => 0
  | .modelResponded => 1
  | .toolsSettled => 2

def TurnCheckpoint.validate (c : TurnCheckpoint) (binding : TurnBinding) : Except String Unit := do
  c.binding.validate
  ensure (c.binding = binding ∧ c.sequence ≠ 0 ∧ c.sequence ≤ maxTurnCheckpointSequence ∧ c.modelCalls ≠ 0 ∧
      c.modelCalls ≤ maxTurnCheckpointSequence ∧ c.withinBounds)
    "Invalid or oversized turn checkpoint"
  ensure (c.modelCalls * 2 - 1 + c.phase.offset ≤ c.sequence ∧ c.sequence ≤ c.modelCalls * 3 - 2 + c.phase.offset)
    "Turn checkpoint does not match its model boundary"

/-- The `valid` of `validate_after`: whether `c` may follow `previous`. -/
def TurnCheckpoint.follows (c : TurnCheckpoint) : Option TurnCheckpoint → Bool
  | none => c.sequence == 1 && c.phase == .beforeModel && c.modelCalls == 1
  | some old =>
    checkedAdd 64 old.sequence 1 == some c.sequence &&
      match old.phase, c.phase with
      | .beforeModel, .modelResponded => c.modelCalls == old.modelCalls
      | .modelResponded, .toolsSettled => c.modelCalls == old.modelCalls
      | .modelResponded, .beforeModel => c.modelCalls == old.modelCalls + 1
      | .toolsSettled, .beforeModel => c.modelCalls == old.modelCalls + 1
      | _, _ => false

def TurnCheckpoint.validateAfter (c : TurnCheckpoint) (binding : TurnBinding) (previous : Option TurnCheckpoint) :
    Except String Unit := do
  c.validate binding
  if let some old := previous then old.validate binding
  ensure (c.follows previous) "Turn checkpoint sequence or boundary regressed"

/-- `next` is accepted as the checkpoint after `old`. -/
def Next (binding : TurnBinding) (old next : TurnCheckpoint) : Prop := next.validateAfter binding (some old) = .ok ()

/-! ## What is saved is within bounds -/

theorem utf8Len_takeBytes (n : ℕ) (cs : List Char) : String.utf8Len (takeBytes n cs) ≤ n := by
  induction cs generalizing n with
  | nil => simp [takeBytes]
  | cons c cs ih =>
    unfold takeBytes
    by_cases hc : c.utf8Size ≤ n
    · rw [if_pos hc, String.utf8Len_cons]
      have := ih (n - c.utf8Size)
      omega
    · rw [if_neg hc]
      simp

theorem size_bounded (role : MessageRole) (text : String) :
    (TurnProgress.bounded role text).text.utf8ByteSize ≤ maxTurnProgressTextBytes := by
  have h := utf8Len_takeBytes maxTurnProgressTextBytes text.toList
  show (String.ofList _).utf8ByteSize ≤ _
  rwa [String.utf8ByteSize_ofList]

theorem withinBounds_bounded (binding : TurnBinding) (sequence : ℕ) (phase : TurnPhase) (modelCalls : ℕ)
    (messages : List Message) : (TurnCheckpoint.bounded binding sequence phase modelCalls messages).withinBounds := by
  have hlen : (messages.reverse.take maxTurnProgressMessages).length ≤ maxTurnProgressMessages :=
    List.length_take_le _ _
  have htext : ∀ m : Message,
      ¬ maxTurnProgressTextBytes < (TurnProgress.bounded m.role m.content.text).text.utf8ByteSize :=
    fun m => not_lt.mpr (size_bounded m.role m.content.text)
  simp only [TurnCheckpoint.withinBounds, TurnCheckpoint.bounded, List.length_map, List.length_reverse, hlen,
    List.any_map, List.isEmpty_nil, List.any_nil, List.length_nil]
  simp [htext]

/-! ## The abstract turn -/

/-- The `(sequence, phase, model_calls)` of a turn as it runs. -/
inductive TurnRun : ℕ → TurnPhase → ℕ → Prop
  | start : TurnRun 1 .beforeModel 1
  | responded {s m : ℕ} (h : TurnRun s .beforeModel m) : TurnRun (s + 1) .modelResponded m
  | settled {s m : ℕ} (h : TurnRun s .modelResponded m) : TurnRun (s + 1) .toolsSettled m
  | again {s m : ℕ} {p : TurnPhase} (h : TurnRun s p m) (hp : p ≠ .beforeModel) : TurnRun (s + 1) .beforeModel (m + 1)

variable {s m : ℕ} {p : TurnPhase}

theorem TurnRun.bounds (h : TurnRun s p m) : 1 ≤ m ∧ m * 2 - 1 + p.offset ≤ s ∧ s ≤ m * 3 - 2 + p.offset := by
  induction h with
  | start => decide
  | responded _ ih =>
    simp only [TurnPhase.offset] at ih ⊢
    omega
  | settled _ ih =>
    simp only [TurnPhase.offset] at ih ⊢
    omega
  | @again s m p _ hp ih =>
    cases p with
    | beforeModel => exact absurd rfl hp
    | modelResponded | toolsSettled =>
      simp only [TurnPhase.offset] at ih ⊢
      omega

theorem TurnRun.opens (hm : 1 ≤ m) (hlow : m * 2 - 1 ≤ s) (hhigh : s ≤ m * 3 - 2) : TurnRun s .beforeModel m := by
  induction m, hm using Nat.le_induction generalizing s with
  | base =>
    obtain rfl : s = 1 := by omega
    exact .start
  | succ m hm ih =>
    -- skip the tools of call `m` while the interval without them reaches `s`
    rcases Nat.lt_or_ge (m * 3) s with hs | hs
    · obtain ⟨r, rfl⟩ : ∃ r, s = r + 3 := ⟨s - 3, by omega⟩
      have hr : TurnRun r .beforeModel m := ih (by omega) (by omega)
      exact hr.responded.settled.again (by decide)
    · obtain ⟨r, rfl⟩ : ∃ r, s = r + 2 := ⟨s - 2, by omega⟩
      have hr : TurnRun r .beforeModel m := ih (by omega) (by omega)
      exact hr.responded.again (by decide)

theorem turnRun_iff : TurnRun s p m ↔ 1 ≤ m ∧ m * 2 - 1 + p.offset ≤ s ∧ s ≤ m * 3 - 2 + p.offset := by
  refine ⟨TurnRun.bounds, fun ⟨hm, hlow, hhigh⟩ => ?_⟩
  cases p with
  | beforeModel => exact TurnRun.opens hm hlow hhigh
  | modelResponded =>
    simp only [TurnPhase.offset] at hlow hhigh
    obtain ⟨r, rfl⟩ : ∃ r, s = r + 1 := ⟨s - 1, by omega⟩
    exact (TurnRun.opens hm (by omega) (by omega)).responded
  | toolsSettled =>
    simp only [TurnPhase.offset] at hlow hhigh
    obtain ⟨r, rfl⟩ : ∃ r, s = r + 2 := ⟨s - 2, by omega⟩
    exact (TurnRun.opens hm (by omega) (by omega)).responded.settled

/-! ## The code's checks -/

variable {binding : TurnBinding} {c old : TurnCheckpoint}

theorem validate_eq_ok : c.validate binding = .ok () ↔
    binding.validate = .ok () ∧ c.binding = binding ∧ c.withinBounds = true ∧
      c.sequence ≤ maxTurnCheckpointSequence ∧ TurnRun c.sequence c.phase c.modelCalls := by
  simp only [TurnCheckpoint.validate, bind_eq_ok, ensure_eq_ok, turnRun_iff]
  constructor
  · rintro ⟨_, hb, _, ⟨rfl, -, hs, hm, -, hw⟩, hlow, hhigh⟩
    exact ⟨hb, rfl, hw, hs, by omega, hlow, hhigh⟩
  · rintro ⟨hb, rfl, hw, hs, hm, hlow, hhigh⟩
    exact ⟨(), hb, (), ⟨rfl, by omega, hs, by omega, by omega, hw⟩, hlow, hhigh⟩

theorem validateAfter_none : c.validateAfter binding none = .ok () ↔
    c.validate binding = .ok () ∧ c.follows none = true := by
  simp only [TurnCheckpoint.validateAfter, bind_eq_ok, ensure_eq_ok]
  constructor
  · rintro ⟨_, hc, hf⟩
    exact ⟨hc, hf⟩
  · rintro ⟨hc, hf⟩
    exact ⟨(), hc, hf⟩

theorem next_iff : Next binding old c ↔
    c.validate binding = .ok () ∧ old.validate binding = .ok () ∧ c.follows (some old) = true := by
  simp only [Next, TurnCheckpoint.validateAfter, bind_eq_ok, ensure_eq_ok]
  constructor
  · rintro ⟨_, hc, _, hold, hf⟩
    exact ⟨hc, hold, hf⟩
  · rintro ⟨hc, hold, hf⟩
    exact ⟨(), hc, (), hold, hf⟩

theorem follows_some (hseq : c.sequence = old.sequence + 1) (hmax : c.sequence ≤ maxTurnCheckpointSequence)
    (hstep : (old.phase = .beforeModel ∧ c.phase = .modelResponded ∧ c.modelCalls = old.modelCalls) ∨
      (old.phase = .modelResponded ∧ c.phase = .toolsSettled ∧ c.modelCalls = old.modelCalls) ∨
      (old.phase ≠ .beforeModel ∧ c.phase = .beforeModel ∧ c.modelCalls = old.modelCalls + 1)) :
    c.follows (some old) = true := by
  have hadd : checkedAdd 64 old.sequence 1 = some c.sequence := by
    unfold checkedAdd
    rw [if_pos (by unfold maxTurnCheckpointSequence at hmax; omega), hseq]
  simp only [TurnCheckpoint.follows, hadd]
  rcases hstep with ⟨ho, hc, hm⟩ | ⟨ho, hc, hm⟩ | ⟨ho, hc, hm⟩
  · simp [ho, hc, hm]
  · simp [ho, hc, hm]
  · cases hp : old.phase with
    | beforeModel => exact absurd hp ho
    | modelResponded | toolsSettled => simp [hc, hm]

/-- `c` ends a chain of checkpoints each of which was accepted after the one before. -/
def Chained (binding : TurnBinding) (c : TurnCheckpoint) : Prop :=
  ∃ first : TurnCheckpoint, first.validateAfter binding none = .ok () ∧ Relation.ReflTransGen (Next binding) first c

theorem Chained.validate (h : Chained binding c) : c.validate binding = .ok () := by
  obtain ⟨first, hfirst, hchain⟩ := h
  cases hchain with
  | refl => exact (validateAfter_none.mp hfirst).1
  | tail _ hnext => exact (next_iff.mp hnext).1

theorem Chained.next (h : Chained binding old) (hc : c.validate binding = .ok ()) (hf : c.follows (some old) = true) :
    Chained binding c := by
  have hold := h.validate
  obtain ⟨first, hfirst, hchain⟩ := h
  exact ⟨first, hfirst, hchain.tail (next_iff.mpr ⟨hc, hold, hf⟩)⟩

/-- A checkpoint that carries no excerpts and no calls. -/
def bare (binding : TurnBinding) (s : ℕ) (p : TurnPhase) (m : ℕ) : TurnCheckpoint := .bounded binding s p m []

theorem validate_bare (hb : binding.validate = .ok ()) (hs : s ≤ maxTurnCheckpointSequence) (h : TurnRun s p m) :
    (bare binding s p m).validate binding = .ok () :=
  validate_eq_ok.mpr ⟨hb, rfl, withinBounds_bounded binding s p m [], hs, h⟩

theorem TurnRun.chained (h : TurnRun s p m) (hc : c.validate binding = .ok ()) (hs : c.sequence = s) (hp : c.phase = p)
    (hm : c.modelCalls = m) : Chained binding c := by
  obtain ⟨hb, -, -, hmax, -⟩ := validate_eq_ok.mp hc
  induction h generalizing c with
  | start =>
    refine ⟨c, validateAfter_none.mpr ⟨hc, ?_⟩, .refl⟩
    simp [TurnCheckpoint.follows, hs, hp, hm]
  | @responded s m h ih =>
    have hbare : (bare binding s .beforeModel m).validate binding = .ok () := validate_bare hb (by omega) h
    have hold : Chained binding (bare binding s .beforeModel m) := ih hbare rfl rfl rfl (by show s ≤ _; omega)
    exact hold.next hc (follows_some hs hmax (.inl ⟨rfl, hp, hm⟩))
  | @settled s m h ih =>
    have hbare : (bare binding s .modelResponded m).validate binding = .ok () := validate_bare hb (by omega) h
    have hold : Chained binding (bare binding s .modelResponded m) := ih hbare rfl rfl rfl (by show s ≤ _; omega)
    exact hold.next hc (follows_some hs hmax (.inr (.inl ⟨rfl, hp, hm⟩)))
  | @again s m p h hne ih =>
    have hbare : (bare binding s p m).validate binding = .ok () := validate_bare hb (by omega) h
    have hold : Chained binding (bare binding s p m) := ih hbare rfl rfl rfl (by show s ≤ _; omega)
    exact hold.next hc (follows_some hs hmax (.inr (.inr ⟨hne, hp, hm⟩)))

/-- **A checkpoint is accepted exactly when a run produces it**: by the chain of checkpoints `validate_after` accepts,
and, its lists being within bounds, by the boundaries of the abstract turn. -/
theorem validate_iff_run (binding : TurnBinding) (c : TurnCheckpoint) :
    (c.validate binding = .ok () ↔
      ∃ first : TurnCheckpoint, first.validateAfter binding none = .ok () ∧
        Relation.ReflTransGen (fun old next => next.validateAfter binding (some old) = .ok ()) first c) ∧
    (c.validate binding = .ok () ↔
      binding.validate = .ok () ∧ c.binding = binding ∧ c.withinBounds = true ∧
        c.sequence ≤ maxTurnCheckpointSequence ∧ TurnRun c.sequence c.phase c.modelCalls) := by
  refine ⟨⟨fun hc => ?_, fun hchain => ?_⟩, validate_eq_ok⟩
  · obtain ⟨-, -, -, -, hrun⟩ := validate_eq_ok.mp hc
    exact hrun.chained hc rfl rfl rfl
  · have h : Chained binding c := hchain
    exact h.validate

end AnimaCore.TurnRecovery
