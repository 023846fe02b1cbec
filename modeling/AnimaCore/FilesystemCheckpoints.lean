import AnimaCore.Base
import AnimaCore.Lib.Table

/-!
# AnimaCore.FilesystemCheckpoints — portable checkpoint records and their checks

`filesystem_checkpoints.rs`: a checkpoint lists the recorded state of a set of paths.  Everything here is data that a
host supplies; no file is touched.  SHA-256, the JSON encodings and the decoder of permission records belong to other
packages: an `EntryCodec` stands for them.

A path is compared by its *key*: the path itself, or its ASCII lower case on a case-insensitive file system.
-/

namespace AnimaCore.FilesystemCheckpoints

open Lib

/-! ## Bounds -/

def filesystemCheckpointVersion : ℕ := 1

def maxCheckpointEntries : ℕ := 50000

def maxCheckpointPathBytes : ℕ := 1024

def maxCheckpointIdBytes : ℕ := 128

def maxCheckpointDepth : ℕ := 64

def maxCheckpointStreamBytes : ℕ := 10 * 1024 * 1024

def maxCheckpointContentBytes : ℕ := 64 * 1024 * 1024

def maxCheckpointManifestBytes : ℕ := 8 * 1024 * 1024

def maxCheckpointMetadataBytes : ℕ := 64 * 1024

def maxCheckpointStoreBytes : ℕ := 500 * 1024 * 1024

def maxCheckpointHistoryRecords : ℕ := 1000

/-! ## Records -/

inductive CheckpointError
  | invalidManifest
  | invalidScope
  | invalidPath
  | invalidMetadata
  | invalidObject
  | invalidWitness
  | invalidRetention
  | budget
  deriving DecidableEq, Repr

/-- `Result<T, CheckpointError>`. -/
abbrev CheckpointResult (α : Type) := Except CheckpointError α

inductive PathSemantics
  | windowsInsensitive
  | posixSensitive
  deriving DecidableEq, Repr

structure CheckpointScope where
  ownerId : String
  workspaceId : String
  environmentId : String
  pathSemantics : PathSemantics
  rootIdentityDigest : String
  policyDigest : String
  deriving DecidableEq

structure BlobReference where
  sha256 : String
  byteCount : ℕ
  deriving DecidableEq

structure CheckpointBlob where
  reference : BlobReference
  bytes : List UInt8
  deriving DecidableEq

/-- `MetadataKind`; the derived order is that of the declaration. -/
inductive MetadataKind
  | basicPermissions
  | modificationTime
  | creationTime
  | accessTime
  | windowsSecurity
  | extendedAttributes
  | namedStreamIndex
  | hardLinkTopology
  | platformFlags
  deriving DecidableEq, Repr

structure MetadataAttribute where
  kind : MetadataKind
  encodingVersion : ℕ
  bytes : List UInt8
  deriving DecidableEq

structure MetadataSnapshot where
  required : List MetadataKind
  attributes : List MetadataAttribute
  deriving DecidableEq

inductive FileState
  | absent
  | file (content : BlobReference) (metadata : MetadataSnapshot)
  deriving DecidableEq

/-- `matches!(state, FileState::File { .. })`. -/
def FileState.isFile : FileState → Bool
  | .absent => false
  | .file _ _ => true

structure CheckpointEntry where
  path : String
  state : FileState
  deriving DecidableEq

structure FilesystemCheckpoint where
  version : ℕ
  checkpointId : String
  sequence : ℕ
  scope : CheckpointScope
  scopeDigest : String
  entries : List CheckpointEntry
  deriving DecidableEq

inductive ContentBasicPermissionsV1
  | windows (readonly : Bool)
  | posix (mode : ℕ)
  deriving DecidableEq

inductive ValidationProfile
  | strict
  | contentBasicV1 (semantics : PathSemantics)
  deriving DecidableEq

/-! ## Field checks -/

/-- `valid_id`. -/
def validCheckpointId (id : String) : Bool :=
  !trimmedEmpty id && id.utf8ByteSize ≤ maxCheckpointIdBytes && !id.toList.any isControl

def validDigest (digest : String) : Bool := digest.utf8ByteSize == 64 && digest.toList.all isHexDigit

def validateScope (scope : CheckpointScope) : CheckpointResult Unit :=
  ensure (validCheckpointId scope.ownerId = true ∧ validCheckpointId scope.workspaceId = true ∧
    validCheckpointId scope.environmentId = true ∧ validDigest scope.rootIdentityDigest = true ∧
    validDigest scope.policyDigest = true) .invalidScope

def toAsciiLowercase (path : String) : String := String.ofList (path.toList.map Char.toLower)

def pathKey (path : String) (semantics : PathSemantics) : String :=
  match semantics with
  | .windowsInsensitive => toAsciiLowercase path
  | .posixSensitive => path

/-- The reserved device names of `validate_path`; the stem is upper case and ASCII. -/
def isDevice (stem : String) : Bool :=
  ["CON", "PRN", "AUX", "NUL", "CONIN$", "CONOUT$"].contains stem ||
    ["COM", "LPT"].any fun device =>
      ["1", "2", "3", "4", "5", "6", "7", "8", "9", "¹", "²", "³"].any fun suffix => stem == device ++ suffix

/-- The further checks of a component on a case-insensitive file system. -/
def validWindowsComponent (component : List Char) : Bool :=
  let stem := (component.takeWhile (· != '.')).reverse.dropWhile (· == ' ') |>.reverse
  !(component.getLast? == some '.' || component.getLast? == some ' ') &&
    !component.any (fun c => "\\:<>\"|?*".toList.contains c) &&
    !isDevice (String.ofList (stem.map Char.toUpper))

def validComponent (semantics : PathSemantics) (component : List Char) : Bool :=
  !component.isEmpty && component != ['.'] && component != ['.', '.'] &&
    (semantics == .posixSensitive || validWindowsComponent component)

def validatePath (path : String) (semantics : PathSemantics) : CheckpointResult Unit := do
  ensure (path ≠ "" ∧ path.utf8ByteSize ≤ maxCheckpointPathBytes ∧ path.toList.any isControl = false) .invalidPath
  ensure (semantics = .posixSensitive ∨ path.toList.all (fun c => decide (c.toNat < 128)) = true) .invalidPath
  let components := path.toList.splitOn '/'
  ensure (components.length ≤ maxCheckpointDepth ∧ components.all (validComponent semantics) = true) .invalidPath

def validateReference (reference : BlobReference) : CheckpointResult Unit := do
  ensure (validDigest reference.sha256 = true) .invalidObject
  ensure (reference.byteCount ≤ maxCheckpointStreamBytes) .budget

/-- What belongs to other packages: SHA-256 in hexadecimal, the encoded size of the records that are bounded, and the
coding of permission records. -/
structure EntryCodec where
  digest : List UInt8 → String
  scopeDigest : CheckpointScope → String
  entriesSize : List CheckpointEntry → ℕ
  checkpointSize : FilesystemCheckpoint → ℕ
  decodePermissions : List UInt8 → Option ContentBasicPermissionsV1
  encodePermissions : ContentBasicPermissionsV1 → List UInt8

/-- `bounded_json` on a value of encoded size `size`. -/
def boundedJson (size : ℕ) : CheckpointResult Unit := ensure (size ≤ maxCheckpointManifestBytes) .budget

/-- `content_basic_v1::validate_metadata`. -/
def validateBasicMetadata (codec : EntryCodec) (metadata : MetadataSnapshot) (semantics : PathSemantics) :
    CheckpointResult Unit := do
  ensure (metadata.required = [.basicPermissions] ∧ metadata.attributes.length = 1) .invalidMetadata
  let attr ← okOr metadata.attributes.head? .invalidMetadata
  ensure (attr.kind = .basicPermissions ∧ attr.encodingVersion = 1) .invalidMetadata
  let permission ← okOr (codec.decodePermissions attr.bytes) .invalidMetadata
  match permission, semantics with
  | .windows _, .windowsInsensitive => .ok ()
  | .posix mode, .posixSensitive => ensure (mode ≤ 4095) .invalidMetadata
  | _, _ => .error .invalidMetadata
  ensure (codec.encodePermissions permission = attr.bytes) .invalidMetadata

def validateMetadata (codec : EntryCodec) (profile : ValidationProfile) (metadata : MetadataSnapshot) :
    CheckpointResult Unit := do
  ensure (metadata.required.length ≤ 9 ∧ metadata.attributes.length ≤ 9 ∧
    (metadata.required.map (·.ctorIdx)).IsChain (· < ·) ∧ (metadata.attributes.map (·.kind.ctorIdx)).IsChain (· < ·))
    .invalidMetadata
  let _ ← metadata.attributes.foldlM (fun (bytes : ℕ) attr => do
    let bytes := bytes + attr.bytes.length
    ensure (bytes ≤ maxCheckpointMetadataBytes) CheckpointError.budget
    ensure (attr.encodingVersion = 1) .invalidMetadata
    return bytes) 0
  ensure (metadata.required.all (fun kind => metadata.attributes.any fun a => a.kind == kind) = true) .invalidMetadata
  match profile with
  | .strict =>
    ensure (.basicPermissions ∈ metadata.required ∧ .modificationTime ∈ metadata.required) .invalidMetadata
  | .contentBasicV1 semantics => validateBasicMetadata codec metadata semantics

/-- `validate_state_with_profile`: the content bytes counted so far, with those of the state. -/
def validateState (codec : EntryCodec) (profile : ValidationProfile) (contentBytes : ℕ) (state : FileState) :
    CheckpointResult ℕ :=
  match state with
  | .absent => .ok contentBytes
  | .file content metadata => do
    validateReference content
    let contentBytes ← okOr (checkedAdd 64 contentBytes content.byteCount) CheckpointError.budget
    ensure (contentBytes ≤ maxCheckpointContentBytes) .budget
    validateMetadata codec profile metadata
    return contentBytes

/-! ## Lists of entries -/

/-- What the loop of `validate_entries_with_profile` carries. -/
structure EntryLoop where
  seen : List (String × Bool)
  contentBytes : ℕ
  previous : Option String

def EntryLoop.next (codec : EntryCodec) (profile : ValidationProfile) (semantics : PathSemantics) (ordered : Bool)
    (loop : EntryLoop) (entry : CheckpointEntry) : CheckpointResult EntryLoop := do
  validatePath entry.path semantics
  let key := pathKey entry.path semantics
  ensure (key ∉ loop.seen.map (·.1) ∧
    (ordered = true → ∀ p ∈ loop.previous, compare p entry.path = .lt)) .invalidPath
  let contentBytes ← validateState codec profile loop.contentBytes entry.state
  return { seen := (key, entry.state.isFile) :: loop.seen, contentBytes, previous := some entry.path }

/-- The proper ancestors of a path key: what stands before each separator. -/
def ancestors (key : String) : List String :=
  (List.range key.toList.length).filterMap fun i =>
    if key.toList[i]? = some '/' then some (String.ofList (key.toList.take i)) else none

/-- No file has an ancestor among the entries, and no entry a file as its ancestor. -/
def validTopology (seen : List (String × Bool)) : Bool :=
  seen.all fun e => (ancestors e.1).all fun ancestor =>
    match seen.lookup ancestor with
    | none => true
    | some ancestorPresent => !(ancestorPresent || e.2)

/-- `validate_entries_with_profile`. -/
def validateEntries (codec : EntryCodec) (profile : ValidationProfile) (semantics : PathSemantics) (ordered : Bool)
    (entries : List CheckpointEntry) : CheckpointResult Unit := do
  ensure (entries.length ≤ maxCheckpointEntries) .budget
  let loop ← entries.foldlM (EntryLoop.next codec profile semantics ordered)
    { seen := [], contentBytes := 0, previous := none }
  ensure (validTopology loop.seen = true) .invalidPath
  boundedJson (codec.entriesSize entries)

/-- `validate_checkpoint_shape_with_profile`. -/
def validateCheckpointShape (codec : EntryCodec) (profile : ValidationProfile) (checkpoint : FilesystemCheckpoint)
    (expectedScope : CheckpointScope) : CheckpointResult Unit := do
  ensure (checkpoint.version = filesystemCheckpointVersion ∧ validCheckpointId checkpoint.checkpointId = true ∧
    checkpoint.sequence ≠ 0) .invalidManifest
  validateScope expectedScope
  ensure (checkpoint.scope = expectedScope ∧ checkpoint.scopeDigest = codec.scopeDigest expectedScope) .invalidScope
  validateEntries codec profile checkpoint.scope.pathSemantics true checkpoint.entries
  boundedJson (codec.checkpointSize checkpoint)

/-! ## Objects -/

/-- One turn of the loop of `validate_objects`: the inventory so far and the bytes in it. -/
def addObject (codec : EntryCodec) (acc : List (String × ℕ) × ℕ) (object : CheckpointBlob) :
    CheckpointResult (List (String × ℕ) × ℕ) := do
  validateReference object.reference
  let total ← okOr (checkedAdd 64 acc.2 object.bytes.length) CheckpointError.budget
  ensure (total ≤ maxCheckpointStoreBytes) .budget
  ensure (object.bytes.length = object.reference.byteCount ∧ object.reference.sha256 ∉ acc.1.map (·.1) ∧
    codec.digest object.bytes = object.reference.sha256) .invalidObject
  return ((object.reference.sha256, object.reference.byteCount) :: acc.1, total)

/-- `validate_objects`: the byte counts of the objects, by digest. -/
def validateObjects (codec : EntryCodec) (objects : List CheckpointBlob) : CheckpointResult (List (String × ℕ)) := do
  ensure (objects.length ≤ maxCheckpointEntries) .budget
  let acc ← objects.foldlM (addObject codec) ([], 0)
  return acc.1

def resolveState (inventory : List (String × ℕ)) (state : FileState) : CheckpointResult Unit :=
  match state with
  | .absent => .ok ()
  | .file content _ => ensure (inventory.lookup content.sha256 = some content.byteCount) .invalidObject

/-! ## Keys of checked entries -/

theorem validateEntries_nodup {codec : EntryCodec} {profile : ValidationProfile} {semantics : PathSemantics}
    {ordered : Bool} {entries : List CheckpointEntry}
    (h : validateEntries codec profile semantics ordered entries = .ok ()) :
    (entries.map fun e => pathKey e.path semantics).Nodup := by
  simp only [validateEntries, bind_eq_ok] at h
  obtain ⟨_, _, loop, hloop, _⟩ := h
  have hseen : (∀ k, k ∈ loop.seen.map (·.1) ↔ k ∈ entries.map fun e => pathKey e.path semantics) ∧
      (entries.map fun e => pathKey e.path semantics).Nodup := by
    refine foldlM_induction (P := fun pre (loop : EntryLoop) =>
      (∀ k, k ∈ loop.seen.map (·.1) ↔ k ∈ pre.map fun e => pathKey e.path semantics) ∧
        (pre.map fun e => pathKey e.path semantics).Nodup) hloop ⟨by simp, by simp⟩ ?_
    rintro pre entry post loop loop' _ ⟨hkeys, hnd⟩ hnext
    simp only [EntryLoop.next, bind_eq_ok, ensure_eq_ok] at hnext
    obtain ⟨_, _, _, ⟨hfresh, _⟩, _, _, hout⟩ := hnext
    cases hout
    refine ⟨fun k => ?_, ?_⟩
    · rw [List.map_cons, List.mem_cons, hkeys k, List.map_append, List.mem_append, or_comm]
      simp
    · rw [List.map_append, List.nodup_append]
      refine ⟨hnd, by simp, ?_⟩
      rintro a ha b hb rfl
      simp only [List.map_cons, List.map_nil, List.mem_singleton] at hb
      exact hfresh ((hkeys _).mpr (hb ▸ ha))
  exact hseen.2

end AnimaCore.FilesystemCheckpoints
