import AnimaCore.Lib.Fallible

/-!
# AnimaCore.Base — identifiers, error codes and the shared field checks

`Uuid` is the 128-bit identifier of the source, ordered as its bytes are (big endian, so as a number).  Unsigned
words are natural numbers whose arithmetic goes through `Lib.checkedAdd`; `i64` times are integers.  A key of a
`BTreeMap` that is a tuple is ordered lexicographically (`lexOrd`).

The checks `validUuid`, `validId`, `validVersion` are those of `execution/state.rs`; `trimmedEmpty` is
`str::trim().is_empty()` over Unicode white space, and the byte length of a string is `String.utf8ByteSize`.
-/

namespace AnimaCore

open Lib

attribute [instance] lexOrd

theorem compare_lt_of_fst {α β : Type} [Ord α] [Ord β] {p q : α × β} (h : compare p.1 q.1 = .lt) : compare p q = .lt := by
  change compareLex (compareOn (·.1)) (compareOn (·.2)) p q = .lt
  simp [compareLex, compareOn, h]

abbrev Uuid := BitVec 128

/-! The orders of the table keys are transitive; each key type has the instance under a name of its own. -/

instance uuidTransOrd : Std.TransOrd Uuid := inferInstance

instance stringTransOrd : Std.TransOrd String := inferInstance

instance stringPairTransOrd : Std.TransOrd (String × String) := inferInstance

instance stringPairLawfulBEq : LawfulBEq (String × String) := inferInstance

instance uuidPairTransOrd : Std.TransOrd (Uuid × Uuid) := inferInstance

instance uuidNatTransOrd : Std.TransOrd (Uuid × ℕ) := inferInstance

instance uuidStringTransOrd : Std.TransOrd (Uuid × String) := inferInstance

instance uuidStringNatTransOrd : Std.TransOrd (Uuid × String × ℕ) := inferInstance

instance uuidStringNatUuidTransOrd : Std.TransOrd (Uuid × String × ℕ × Uuid) := inferInstance

def isNil (id : Uuid) : Bool := id == 0#128

@[simp] theorem isNil_eq_false {id : Uuid} : isNil id = false ↔ id ≠ 0#128 := by simp [isNil]

/-! ## Strings -/

/-- `char::is_whitespace`: the Unicode `White_Space` property. -/
def isWhitespace (c : Char) : Bool :=
  let n := c.toNat
  (9 ≤ n && n ≤ 13) || n == 0x20 || n == 0x85 || n == 0xA0 || n == 0x1680 || (0x2000 ≤ n && n ≤ 0x200A) ||
    n == 0x2028 || n == 0x2029 || n == 0x202F || n == 0x205F || n == 0x3000

def isControl (c : Char) : Bool :=
  let n := c.toNat
  n ≤ 0x1F || (0x7F ≤ n && n ≤ 0x9F)

/-- `value.trim().is_empty()`. -/
def trimmedEmpty (value : String) : Bool := value.toList.all isWhitespace

def isHexDigit (c : Char) : Bool := ('0' ≤ c && c ≤ '9') || ('a' ≤ c && c ≤ 'f')

/-- `canonical_sha256_label` (also `canonical_prefixed_sha256`): `label` followed by 64 hexadecimal digits. -/
def canonicalSha256Label (value label : String) : Bool :=
  value.utf8ByteSize == label.utf8ByteSize + 64 && label.toList.isPrefixOf value.toList &&
    (value.toList.drop label.toList.length).all isHexDigit

/-! ## Error codes -/

inductive ExecutionErrorCode
  | invalidIdentifier
  | invalidVersion
  | invalidState
  | illegalTransition
  | missingPrerequisite
  | recoveryRequired
  | invalidAttempt
  | concurrentNotPinned
  | commandConflict
  | arithmeticOverflow
  | invalidUsage
  | invalidBudget
  | budgetExceeded
  | invalidCheckpoint
  | incompatibleCheckpoint
  | invalidEvent
  deriving DecidableEq, Repr

inductive ExecutionStoreErrorCode
  | notFound
  | versionConflict
  | activeRunConflict
  | leaseConflict
  | leaseExpired
  | commandConflict
  | eventConflict
  | checkpointConflict
  | grantAlreadyConsumed
  | grantConflict
  | policyConflict
  | lineageConflict
  | historyConflict
  | boundsExceeded
  | arithmeticOverflow
  | resultConflict
  | storageUnavailable
  | corruptState
  | invalidRequest
  deriving DecidableEq, Repr

/-- `Result<T, ExecutionError>`. -/
abbrev ExecResult (α : Type) := Except ExecutionErrorCode α

/-- `Result<T, ExecutionStoreError>`. -/
abbrev StoreResult (α : Type) := Except ExecutionStoreErrorCode α

/-- `map_err(ExecutionStoreError::from)`: every execution error becomes an invalid request. -/
def toStore {α : Type} (r : ExecResult α) : StoreResult α :=
  match r with
  | .ok a => .ok a
  | .error _ => .error .invalidRequest

@[simp] theorem toStore_eq_ok {α : Type} {r : ExecResult α} {a : α} : toStore r = .ok a ↔ r = .ok a := by
  cases r <;> simp [toStore]

/-! ## Field checks -/

def validUuid (id : Uuid) : ExecResult Unit := ensure (isNil id = false) .invalidIdentifier

def maxIdBytes : ℕ := 256

def maxCapabilityIdBytes : ℕ := 256

def validId (value : String) : ExecResult Unit :=
  ensure (trimmedEmpty value = false ∧ value.utf8ByteSize ≤ maxIdBytes) .invalidIdentifier

def validVersion (value : ℕ) : ExecResult Unit := ensure (value ≠ 0) .invalidVersion

@[simp] theorem validUuid_eq_ok {id : Uuid} {u : Unit} : validUuid id = .ok u ↔ isNil id = false := by
  simp [validUuid]

end AnimaCore
