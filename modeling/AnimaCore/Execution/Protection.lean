import AnimaCore.Execution.Snapshot

/-!
# AnimaCore.Execution.Protection — secrets out of the persisted snapshot

What `execution/memory_store.rs` does with the secrets of a payload before a snapshot is written, and after it is read.  A
string becomes fragments: literals, and references to the secrets of a manifest in place of the secrets; each reference is
bound to the material by an HMAC.  A JSON value is written with the pointer of each leaf.

* `PersistenceProtection.new`: the inventories of a host, checked.
* `protectString`, `protectJson`: the greedy search for secrets, longest first.
* `restoreString`, `restoreJson`: the checks of the way back, within a budget.

The HMAC and the canonical JSON of a locator are given by a `Seal`.
-/

namespace AnimaCore

open Lib

/-! ## Bounds -/

def snapshotHmacHexBytes : ℕ := 64

def maxPersistedJsonNodes : ℕ := 65536

def maxPersistedJsonCollectionEntries : ℕ := 16384

def maxPersistedJsonDepth : ℕ := 128

def maxPersistedStringFragments : ℕ := 4096

/-! ## Inventories -/

/-- `PersistenceSecretMaterial`: a secret is neither empty nor too long. -/
structure PersistenceSecretMaterial where
  value : String
  ne : value ≠ ""
  fits : value.utf8ByteSize ≤ maxCapabilityArgumentBytes

def PersistenceSecretMaterial.new (value : String) : StoreResult PersistenceSecretMaterial :=
  if h : value = "" ∨ maxCapabilityArgumentBytes < value.utf8ByteSize then .error invalidSnapshot
  else .ok ⟨value, fun he => h (.inl he), not_lt.mp fun hl => h (.inr hl)⟩

/-- `PersistenceSecretLocator`; the reference is the index in the manifest. -/
structure PersistenceSecretLocator where
  capabilityId : String
  manifestVersion : ℕ
  reference : ℕ
  deriving DecidableEq

namespace PersistenceSecretLocator

def key (l : PersistenceSecretLocator) : String × ℕ × ℕ := (l.capabilityId, l.manifestVersion, l.reference)

theorem key_injective : Function.Injective key := by
  rintro ⟨a, b, c⟩ ⟨a', b', c'⟩ h
  obtain ⟨rfl, rfl, rfl⟩ : a = a' ∧ b = b' ∧ c = c' := by simpa [key] using h
  rfl

instance : Ord PersistenceSecretLocator := ⟨compareOn key⟩

instance : Std.TransOrd PersistenceSecretLocator := inferInstanceAs (Std.TransCmp (compareOn key))

instance : Std.LawfulEqOrd PersistenceSecretLocator where
  eq_of_compare h := key_injective (Std.LawfulEqOrd.eq_of_compare h)

def validate (l : PersistenceSecretLocator) : StoreResult Unit :=
  ensure (trimmedEmpty l.capabilityId = false ∧ l.capabilityId.utf8ByteSize ≤ maxCapabilityIdBytes ∧ l.manifestVersion ≠ 0)
    invalidSnapshot

end PersistenceSecretLocator

structure PersistenceCapabilitySecretInventory where
  capabilityId : String
  manifestVersion : ℕ
  schemaDigest : String
  recoveryMode : RecoveryMode
  materials : List PersistenceSecretMaterial

/-- `PersistenceCapabilitySecretInventory::new`, of the fields of a manifest. -/
def PersistenceCapabilitySecretInventory.new (id : String) (version : ℕ) (schemaDigest : String) (recoveryMode : RecoveryMode)
    (secretReferences : ℕ) (materials : List PersistenceSecretMaterial) :
    StoreResult PersistenceCapabilitySecretInventory := do
  ensure (secretReferences = materials.length) invalidSnapshot
  PersistenceSecretLocator.validate ⟨id, version, 0⟩
  .ok ⟨id, version, schemaDigest, recoveryMode, materials⟩

/-- `PersistenceProtection`, as far as payloads need it. -/
structure PersistenceProtection where
  sealKey : List UInt8
  secrets : Table PersistenceSecretLocator PersistenceSecretMaterial
  manifests : Table (String × ℕ) (String × RecoveryMode)

namespace PersistenceProtection

/-- What `new` has read: the protection so far, and the owner of each material. -/
structure Builder where
  secrets : Table PersistenceSecretLocator PersistenceSecretMaterial
  materialOwners : Table String PersistenceSecretLocator
  manifests : Table (String × ℕ) (String × RecoveryMode)

def addMaterial (inventory : PersistenceCapabilitySecretInventory) (b : Builder) (entry : PersistenceSecretMaterial × ℕ) :
    StoreResult Builder := do
  -- `u16::try_from(index)`
  ensure (entry.2 < 2 ^ 16) invalidSnapshot
  let locator : PersistenceSecretLocator := ⟨inventory.capabilityId, inventory.manifestVersion, entry.2⟩
  locator.validate
  ensure (b.materialOwners[entry.1.value]?.all (· == locator) = true) invalidSnapshot
  ensure (b.secrets[locator]? = none) invalidSnapshot
  .ok { b with
    secrets := b.secrets.insert locator entry.1
    materialOwners := b.materialOwners.insert entry.1.value locator }

def addInventory (b : Builder) (inventory : PersistenceCapabilitySecretInventory) : StoreResult Builder := do
  ensure (b.manifests[(inventory.capabilityId, inventory.manifestVersion)]? = none) invalidSnapshot
  let manifests := b.manifests.insert (inventory.capabilityId, inventory.manifestVersion)
    (inventory.schemaDigest, inventory.recoveryMode)
  inventory.materials.zipIdx.foldlM (addMaterial inventory) { b with manifests := manifests }

def new (sealKey : List UInt8) (inventories : List PersistenceCapabilitySecretInventory) :
    StoreResult PersistenceProtection := do
  let b ← inventories.foldlM addInventory ⟨∅, ∅, ∅⟩
  .ok ⟨sealKey, b.secrets, b.manifests⟩

def material (p : PersistenceProtection) (locator : PersistenceSecretLocator) : Option String :=
  p.secrets[locator]?.map (·.value)

def inScope (scope : Option (String × ℕ)) (locator : PersistenceSecretLocator) : Bool :=
  scope.all fun scope => locator.capabilityId == scope.1 && locator.manifestVersion == scope.2

/-- The longest first, and by locator among the same length. -/
def searchedBefore (a b : PersistenceSecretLocator × PersistenceSecretMaterial) : Bool :=
  (compare b.2.value.utf8ByteSize a.2.value.utf8ByteSize).then (compare a.1 b.1) != .gt

def candidates (p : PersistenceProtection) (scope : Option (String × ℕ)) :
    List (PersistenceSecretLocator × PersistenceSecretMaterial) :=
  (p.secrets.toList.filter fun entry => inScope scope entry.1).insertionSort fun a b => searchedBefore a b = true

end PersistenceProtection

/-! ## Bindings -/

/-- What is not in the source: the HMAC, and the canonical JSON of a locator. -/
structure Seal where
  hmacSha256 : List UInt8 → List UInt8 → Vector UInt8 32
  jcs : PersistenceSecretLocator → Option (List UInt8)

/-- A digit of `encode_snapshot_hex`. -/
def snapshotHexDigit (n : ℕ) : Char := "0123456789abcdef".toList.getD n '0'

def encodeSnapshotHex (bytes : List UInt8) : String :=
  String.ofList (bytes.flatMap fun byte => [snapshotHexDigit (byte.toNat / 16), snapshotHexDigit (byte.toNat % 16)])

def asBytes (text : String) : List UInt8 := text.toByteArray.data.toList

def materialBindingDomain : String := "anima-core.persistence-secret-material.v1\x00"

def secretMaterialBinding (S : Seal) (p : PersistenceProtection) (cursorKey : List UInt8)
    (locator : PersistenceSecretLocator) (material : String) : StoreResult String := do
  let encoded ← okOr (S.jcs locator) invalidSnapshot
  .ok (encodeSnapshotHex (S.hmacSha256 p.sealKey (asBytes materialBindingDomain ++ cursorKey ++ encoded ++ [0] ++
    asBytes material)).toList)

def constantTimeEq (left right : List UInt8) : Bool :=
  left.length == right.length &&
    (left.zip right).foldl (fun difference bytes => difference ||| (bytes.1 ^^^ bytes.2)) 0 == 0

/-! ## Strings -/

inductive PersistedStringFragment
  | literal (value : String)
  | secretReference (locator : PersistenceSecretLocator) (materialBinding : String)
  deriving DecidableEq

section

variable (S : Seal) (p : PersistenceProtection) (cursorKey : List UInt8)

/-- The loop of `protect_string`: the fragments so far, the literal since the last of them, and the rest of the value.
Every turn takes at least one character, so that the length of the value is fuel enough. -/
def protectStringFrom (candidates : List (PersistenceSecretLocator × PersistenceSecretMaterial)) :
    ℕ → List PersistedStringFragment → List Char → List Char → StoreResult (List PersistedStringFragment)
  | 0, _, _, _ :: _ => .error invalidSnapshot
  | _, fragments, literal, [] =>
    if literal ≠ [] ∨ fragments = [] then .ok (fragments ++ [.literal (String.ofList literal)]) else .ok fragments
  | fuel + 1, fragments, literal, c :: rest =>
    match candidates.find? fun candidate => candidate.2.value.toList.isPrefixOf (c :: rest) with
    | some (locator, material) => do
      let binding ← secretMaterialBinding S p cursorKey locator material.value
      protectStringFrom candidates fuel
        ((if literal ≠ [] then fragments ++ [.literal (String.ofList literal)] else fragments) ++
          [.secretReference locator binding]) [] ((c :: rest).drop material.value.toList.length)
    | none => protectStringFrom candidates fuel fragments (literal ++ [c]) rest

def protectString (scope : Option (String × ℕ)) (value : String) : StoreResult (List PersistedStringFragment) :=
  protectStringFrom S p cursorKey (p.candidates scope) value.toList.length [] [] value.toList

/-- One fragment of `restore_string`: what is restored, and whether the last fragment was a literal. -/
def restoreFragment (fragmentCount : ℕ) (acc : String × Bool) (fragment : PersistedStringFragment) :
    StoreResult (String × Bool) := do
  let next ← match fragment with
    | .literal value => do
      ensure (¬(acc.2 = true ∨ (value = "" ∧ fragmentCount ≠ 1))) invalidSnapshot
      ensure (value.utf8ByteSize ≤ maxCapabilityArgumentBytes) invalidSnapshot
      Except.ok (acc.1 ++ value, true)
    | .secretReference locator materialBinding => do
      ensure (materialBinding.utf8ByteSize = snapshotHmacHexBytes) invalidSnapshot
      locator.validate
      let material ← okOr (p.material locator) invalidSnapshot
      let binding ← secretMaterialBinding S p cursorKey locator material
      ensure (constantTimeEq (asBytes materialBinding) (asBytes binding) = true) invalidSnapshot
      .ok (acc.1 ++ material, false)
  ensure (next.1.utf8ByteSize ≤ maxCapabilityArgumentBytes) invalidSnapshot
  .ok next

def restoreString (fragments : List PersistedStringFragment) : StoreResult String := do
  ensure (fragments ≠ [] ∧ fragments.length ≤ maxPersistedStringFragments) invalidSnapshot
  let restored ← fragments.foldlM (restoreFragment S p cursorKey fragments.length) ("", false)
  .ok restored.1

end

/-! ## JSON values -/

/-- `PersistedJsonValue`; an entry of an object is its key and its value. -/
inductive PersistedJsonValue
  | null (pointer : String)
  | bool (pointer : String) (value : Bool)
  | number (pointer : String) (value : Number)
  | string (pointer : String) (fragments : List PersistedStringFragment)
  | array (values : List PersistedJsonValue)
  | object (entries : List (PersistedJsonValue × PersistedJsonValue))

def joinJsonPointer (parent child : String) : String := parent ++ "/" ++ child

def itemPointer (pointer : String) (index : ℕ) : String := joinJsonPointer pointer (toString index)

def entryPointer (pointer : String) (index : ℕ) : String := joinJsonPointer pointer ("entries/" ++ toString index)

section

variable (S : Seal) (p : PersistenceProtection) (cursorKey : List UInt8)

mutual

def protectJson (scope : Option (String × ℕ)) (pointer : String) : Value → StoreResult PersistedJsonValue
  | .null => .ok (.null pointer)
  | .bool value => .ok (.bool pointer value)
  | .number value => .ok (.number pointer value)
  | .string value => do
    let fragments ← protectString S p cursorKey scope value
    .ok (.string pointer fragments)
  | .array values => do
    let values ← protectValues scope pointer 0 values
    .ok (.array values)
  | .object entries => do
    let entries ← protectEntries scope pointer 0 entries
    .ok (.object entries)

/-- The elements of an array, from an index on. -/
def protectValues (scope : Option (String × ℕ)) (pointer : String) (index : ℕ) :
    List Value → StoreResult (List PersistedJsonValue)
  | [] => .ok []
  | value :: rest => do
    let first ← protectJson scope (itemPointer pointer index) value
    let rest ← protectValues scope pointer (index + 1) rest
    .ok (first :: rest)

/-- The entries of an object, from an index on. -/
def protectEntries (scope : Option (String × ℕ)) (pointer : String) (index : ℕ) :
    List (String × Value) → StoreResult (List (PersistedJsonValue × PersistedJsonValue))
  | [] => .ok []
  | (key, value) :: rest => do
    let fragments ← protectString S p cursorKey scope key
    let first ← protectJson scope (joinJsonPointer (entryPointer pointer index) "value") value
    let rest ← protectEntries scope pointer (index + 1) rest
    .ok ((.string (joinJsonPointer (entryPointer pointer index) "key") fragments, first) :: rest)

end

/-- `Map::insert` of a new key, into entries in the order of their keys. -/
def insertEntry (key : String) (value : Value) : List (String × Value) → Option (List (String × Value))
  | [] => some [(key, value)]
  | (k, v) :: rest =>
    match compare key k with
    | .lt => some ((key, value) :: (k, v) :: rest)
    | .eq => none
    | .gt => (insertEntry key value rest).map ((k, v) :: ·)

/-- `RestoreJsonBudget`: what is used of it. -/
structure RestoreJsonBudget where
  nodes : ℕ
  depth : ℕ

def RestoreJsonBudget.enter (b : RestoreJsonBudget) : StoreResult RestoreJsonBudget := do
  let nodes ← okOr (checkedAdd 64 b.nodes 1) invalidSnapshot
  let depth ← okOr (checkedAdd 64 b.depth 1) invalidSnapshot
  ensure (nodes ≤ maxPersistedJsonNodes ∧ depth ≤ maxPersistedJsonDepth) invalidSnapshot
  .ok ⟨nodes, depth⟩

def RestoreJsonBudget.leave (b : RestoreJsonBudget) : StoreResult RestoreJsonBudget := do
  ensure (1 ≤ b.depth) invalidSnapshot
  .ok { b with depth := b.depth - 1 }

mutual

def restoreJsonWithBudget (pointer : String) (b : RestoreJsonBudget) :
    PersistedJsonValue → StoreResult (Value × RestoreJsonBudget)
  | .null persisted => do
    let b ← b.enter
    ensure (persisted = pointer) invalidSnapshot
    let b ← b.leave
    .ok (.null, b)
  | .bool persisted value => do
    let b ← b.enter
    ensure (persisted = pointer) invalidSnapshot
    let b ← b.leave
    .ok (.bool value, b)
  | .number persisted value => do
    let b ← b.enter
    ensure (persisted = pointer) invalidSnapshot
    let b ← b.leave
    .ok (.number value, b)
  | .string persisted fragments => do
    let b ← b.enter
    ensure (persisted = pointer) invalidSnapshot
    let value ← restoreString S p cursorKey fragments
    let b ← b.leave
    .ok (.string value, b)
  | .array values => do
    let b ← b.enter
    ensure (values.length ≤ maxPersistedJsonCollectionEntries) invalidSnapshot
    let (values, b) ← restoreValues pointer 0 b values
    let b ← b.leave
    .ok (.array values, b)
  | .object entries => do
    let b ← b.enter
    ensure (entries.length ≤ maxPersistedJsonCollectionEntries) invalidSnapshot
    let (entries, b) ← restoreEntries pointer 0 b [] entries
    let b ← b.leave
    .ok (.object entries, b)

/-- The elements of an array, from an index on. -/
def restoreValues (pointer : String) (index : ℕ) (b : RestoreJsonBudget) :
    List PersistedJsonValue → StoreResult (List Value × RestoreJsonBudget)
  | [] => .ok ([], b)
  | value :: rest => do
    let (first, b) ← restoreJsonWithBudget (itemPointer pointer index) b value
    let (rest, b) ← restoreValues pointer (index + 1) b rest
    .ok (first :: rest, b)

/-- The entries of an object, from an index on, into the map of those before. -/
def restoreEntries (pointer : String) (index : ℕ) (b : RestoreJsonBudget) (map : List (String × Value)) :
    List (PersistedJsonValue × PersistedJsonValue) → StoreResult (List (String × Value) × RestoreJsonBudget)
  | [] => .ok (map, b)
  | (key, value) :: rest => do
    let (key, b) ← restoreJsonWithBudget (joinJsonPointer (entryPointer pointer index) "key") b key
    let key ← match key with
      | .string key => Except.ok key
      | _ => .error invalidSnapshot
    let (value, b) ← restoreJsonWithBudget (joinJsonPointer (entryPointer pointer index) "value") b value
    let map ← okOr (insertEntry key value map) invalidSnapshot
    restoreEntries pointer (index + 1) b map rest

end

def restoreJson (pointer : String) (value : PersistedJsonValue) : StoreResult Value := do
  let restored ← restoreJsonWithBudget S p cursorKey pointer ⟨0, 0⟩ value
  .ok restored.1

end

end AnimaCore
