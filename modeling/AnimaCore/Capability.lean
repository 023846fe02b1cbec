import AnimaCore.Base

/-!
# AnimaCore.Capability — the capability records that durable execution stores

From `capability.rs`: risk and recovery modes, the safe binding of a logical invocation, the recovery resume
binding and the durable result, and the JSON value type their arguments are written in.  A record whose fields
are private in the source is a structure over its wire form with the validity check as a field, so that every
value of the type is one the public constructors can make.

The identity of a logical invocation is a UUIDv5 of its canonical JSON; a binding carries it as data, as the
`Deserialize` constructor of the source does.  A manifest is kept to the fields the policy code reads.
-/

namespace AnimaCore

open Lib

/-! ## JSON values -/

/-- `serde_json::Number`; a float is its bit pattern. -/
inductive Number
  | posInt (n : ℕ)
  | negInt (n : ℤ)
  | float (bits : UInt64)
  deriving DecidableEq, Repr

/-- `serde_json::Value`, an object as its sorted entry list. -/
inductive Value
  | null
  | bool (b : Bool)
  | number (n : Number)
  | string (s : String)
  | array (values : List Value)
  | object (entries : List (String × Value))

mutual

/-- Decidable equality of JSON values, by recursion over the nested lists. -/
def Value.decEq : (a b : Value) → Decidable (a = b)
  | .null, .null => isTrue rfl
  | .bool a, .bool b => decidable_of_iff (a = b) (by simp)
  | .number a, .number b => decidable_of_iff (a = b) (by simp)
  | .string a, .string b => decidable_of_iff (a = b) (by simp)
  | .array a, .array b => @decidable_of_iff _ (a = b) (by simp) (Value.decEqList a b)
  | .object a, .object b => @decidable_of_iff _ (a = b) (by simp) (Value.decEqEntries a b)
  | .null, .bool _ | .null, .number _ | .null, .string _ | .null, .array _ | .null, .object _
  | .bool _, .null | .bool _, .number _ | .bool _, .string _ | .bool _, .array _ | .bool _, .object _
  | .number _, .null | .number _, .bool _ | .number _, .string _ | .number _, .array _ | .number _, .object _
  | .string _, .null | .string _, .bool _ | .string _, .number _ | .string _, .array _ | .string _, .object _
  | .array _, .null | .array _, .bool _ | .array _, .number _ | .array _, .string _ | .array _, .object _
  | .object _, .null | .object _, .bool _ | .object _, .number _ | .object _, .string _ | .object _, .array _ =>
    isFalse (by simp)

def Value.decEqList : (a b : List Value) → Decidable (a = b)
  | [], [] => isTrue rfl
  | [], _ :: _ | _ :: _, [] => isFalse (by simp)
  | a :: as, b :: bs =>
    match Value.decEq a b with
    | isFalse h => isFalse (by simp [h])
    | isTrue h => @decidable_of_iff _ (as = bs) (by simp [h]) (Value.decEqList as bs)

def Value.decEqEntries : (a b : List (String × Value)) → Decidable (a = b)
  | [], [] => isTrue rfl
  | [], _ :: _ | _ :: _, [] => isFalse (by simp)
  | (k, a) :: as, (k', b) :: bs =>
    if hk : k = k' then
      match Value.decEq a b with
      | isFalse h => isFalse (by simp [h])
      | isTrue h => @decidable_of_iff _ (as = bs) (by simp [hk, h]) (Value.decEqEntries as bs)
    else isFalse (by simp [hk])

end

instance : DecidableEq Value := Value.decEq

/-! ## Modes -/

inductive RiskLevel
  | none
  | low
  | medium
  | high
  | critical
  deriving DecidableEq, Repr

inductive RecoveryMode
  | inherentlyIdempotent
  | keyedIdempotent
  | reconcilable
  | nonRetryable
  | none
  | retry
  | compensate
  | manual
  deriving DecidableEq, Repr

def RecoveryMode.retryable : RecoveryMode → Bool
  | .inherentlyIdempotent | .keyedIdempotent | .reconcilable | .retry => true
  | .nonRetryable | .none | .compensate | .manual => false

/-- The position of a mode in the source's `Ord` derivation. -/
def RecoveryMode.rank : RecoveryMode → ℕ
  | .inherentlyIdempotent => 0
  | .keyedIdempotent => 1
  | .reconcilable => 2
  | .nonRetryable => 3
  | .none => 4
  | .retry => 5
  | .compensate => 6
  | .manual => 7

/-- The fields of a `CapabilityManifest` that policy evaluation reads. -/
structure CapabilityManifest where
  id : String
  version : ℕ
  riskLevel : RiskLevel
  deriving DecidableEq

/-! ## Identity text -/

def hexChar (n : ℕ) : Char := Char.ofNat (if n < 10 then 48 + n else 87 + n)

/-- The `len` lowest hexadecimal digits of `n`, most significant first. -/
def hexDigits (len n : ℕ) : List Char := (List.range len).reverse.map fun i => hexChar (n / 16 ^ i % 16)

theorem hexChar_spec {n : ℕ} (h : n < 16) : isHexDigit (hexChar n) = true ∧ (hexChar n).utf8Size = 1 := by
  interval_cases n <;> decide

theorem mem_hexDigits {len n : ℕ} {c : Char} (h : c ∈ hexDigits len n) :
    isHexDigit c = true ∧ c.utf8Size = 1 := by
  simp only [hexDigits, List.mem_map, List.mem_reverse] at h
  obtain ⟨i, _, rfl⟩ := h
  exact hexChar_spec (Nat.mod_lt _ (by decide))

theorem utf8Len_eq_length {cs : List Char} (h : ∀ c ∈ cs, c.utf8Size = 1) : String.utf8Len cs = cs.length := by
  induction cs with
  | nil => rfl
  | cons c cs ih =>
    rw [String.utf8Len_cons, ih fun d hd => h d (by simp [hd]), h c (by simp), List.length_cons]

/-- `Uuid::to_string`: the hyphenated lower-case form. -/
def uuidText (id : Uuid) : String :=
  let d := hexDigits 32 id.toNat
  String.ofList (d.take 8 ++ '-' :: (d.drop 8).take 4 ++ '-' :: (d.drop 12).take 4 ++ '-' :: (d.drop 16).take 4 ++
    '-' :: d.drop 20)

/-! ## Logical invocations -/

structure LogicalInvocationBinding where
  id : Uuid
  runId : Uuid
  logicalStepId : String
  capabilityId : String
  manifestVersion : ℕ
  canonicalArgumentDigest : Uuid
  idempotencyKey : String
  deriving DecidableEq

def LogicalInvocationBinding.validate (b : LogicalInvocationBinding) : Bool :=
  !isNil b.id && !isNil b.runId && !isNil b.canonicalArgumentDigest && !trimmedEmpty b.logicalStepId &&
    !trimmedEmpty b.capabilityId && decide (b.logicalStepId.utf8ByteSize ≤ maxCapabilityIdBytes) &&
    decide (b.capabilityId.utf8ByteSize ≤ maxCapabilityIdBytes) && b.manifestVersion != 0 &&
    b.idempotencyKey == "anima-core:" ++ uuidText b.id

/-! ## Recovery resume bindings -/

/-- The fields of `RecoveryResumeBinding`. -/
structure RecoveryResumeBindingWire where
  logicalInvocationId : Uuid
  runId : Uuid
  logicalStepId : String
  capabilityId : String
  canonicalArgumentDigest : Uuid
  completedAttemptNumber : ℕ
  retryAttemptNumber : ℕ
  manifestId : String
  manifestVersion : ℕ
  manifestDigest : String
  recoveryMode : RecoveryMode
  idempotencyKey : String
  authorizationIdentity : Uuid
  deriving DecidableEq

def maxCapabilityArgumentBytes : ℕ := 64 * 1024

def RecoveryResumeBindingWire.validate (b : RecoveryResumeBindingWire) : Bool :=
  !isNil b.logicalInvocationId && !isNil b.runId && !isNil b.canonicalArgumentDigest &&
    !isNil b.authorizationIdentity && b.completedAttemptNumber != 0 &&
    checkedAdd 32 b.completedAttemptNumber 1 == some b.retryAttemptNumber && !trimmedEmpty b.manifestId &&
    decide (b.manifestId.utf8ByteSize ≤ maxCapabilityIdBytes) && !trimmedEmpty b.logicalStepId &&
    decide (b.logicalStepId.utf8ByteSize ≤ maxCapabilityIdBytes) && b.capabilityId == b.manifestId &&
    b.manifestVersion != 0 && "sha256:".toList.isPrefixOf b.manifestDigest.toList &&
    decide (7 < b.manifestDigest.utf8ByteSize) &&
    decide (b.manifestDigest.utf8ByteSize ≤ maxCapabilityArgumentBytes) &&
    !b.manifestDigest.toList.any isWhitespace &&
    b.idempotencyKey == "anima-core:" ++ uuidText b.logicalInvocationId && b.recoveryMode.retryable

/-- `RecoveryResumeBinding`: the exact retry a recovery pause may be resumed with. -/
structure RecoveryResumeBinding extends RecoveryResumeBindingWire where
  valid : toRecoveryResumeBindingWire.validate = true
  deriving DecidableEq

/-! ## Durable results -/

inductive DurableCapabilityStatus
  | completed
  | adopted
  deriving DecidableEq, Repr

/-- The fields of `DurableCapabilityResult`. -/
structure DurableCapabilityResultWire where
  resultRef : Uuid
  contentDigest : String
  schemaDigest : String
  sizeBytes : ℕ
  status : DurableCapabilityStatus
  deriving DecidableEq

def maxDurableResultSizeBytes : ℕ := 16 * 1024 * 1024

def DurableCapabilityResultWire.validate (r : DurableCapabilityResultWire) : Bool :=
  !isNil r.resultRef && canonicalSha256Label r.contentDigest "jcs-v1:" &&
    canonicalSha256Label r.schemaDigest "sha256:" && r.sizeBytes != 0 &&
    decide (r.sizeBytes ≤ maxDurableResultSizeBytes)

/-- `DurableCapabilityResult`: the stored outcome of one logical invocation. -/
structure DurableCapabilityResult extends DurableCapabilityResultWire where
  valid : toDurableCapabilityResultWire.validate = true
  deriving DecidableEq

end AnimaCore
