import AnimaCore.Execution.MemoryStore

/-!
# AnimaCore.Execution.Replay — read cursors and the replay of events

The paged read of a run's events: `write_cursor`, `decode_cursor`, `read_window` and `replay_events` of
`execution/memory_store.rs`, and the page types of `execution/store.rs`.  A cursor is the hexadecimal form of its
fields and of a digest of them with the store's key; words are written big endian.
-/

namespace AnimaCore

open Lib

/-! ## Bytes -/

/-- The `len` lowest bytes of `n`, most significant first. -/
def beBytes : ℕ → ℕ → List UInt8
  | 0, _ => []
  | len + 1, n => beBytes len (n / 256) ++ [UInt8.ofNat (n % 256)]

/-- The number that bytes write, most significant first. -/
def ofBeBytes (bytes : List UInt8) : ℕ := bytes.foldl (fun n b => n * 256 + b.toNat) 0

def encodeHex (bytes : List UInt8) : List Char :=
  bytes.flatMap fun b => [hexChar (b.toNat / 16), hexChar (b.toNat % 16)]

def hexValue (c : Char) : Option ℕ :=
  if '0' ≤ c ∧ c ≤ '9' then some (c.toNat - '0'.toNat)
  else if 'a' ≤ c ∧ c ≤ 'f' then some (c.toNat - 'a'.toNat + 10)
  else none

/-- `decode_hex`, over the characters of an ASCII string. -/
def decodeHex : List Char → Option (List UInt8)
  | [] => some []
  | [_] => none
  | high :: low :: rest => do
    let h ← hexValue high
    let l ← hexValue low
    let bytes ← decodeHex rest
    return UInt8.ofNat (h * 16 + l) :: bytes

@[simp] theorem length_beBytes (len n : ℕ) : (beBytes len n).length = len := by
  induction len generalizing n with
  | zero => rfl
  | succ len ih => simp [beBytes, ih]

theorem ofBeBytes_beBytes (len n : ℕ) (h : n < 256 ^ len) : ofBeBytes (beBytes len n) = n := by
  induction len generalizing n with
  | zero =>
    rw [pow_zero] at h
    simp [beBytes, ofBeBytes]
    omega
  | succ len ih =>
    have hdiv : n / 256 < 256 ^ len := Nat.div_lt_of_lt_mul (by rwa [pow_succ, mul_comm] at h)
    have hstep : ofBeBytes (beBytes (len + 1) n) = ofBeBytes (beBytes len (n / 256)) * 256 + n % 256 := by
      simp [beBytes, ofBeBytes]
    rw [hstep, ih _ hdiv]
    omega

theorem beBytes_mod (len n : ℕ) : beBytes len (n % 256 ^ len) = beBytes len n := by
  induction len generalizing n with
  | zero => rfl
  | succ len ih =>
    have hdiv : n % 256 ^ (len + 1) / 256 = n / 256 % 256 ^ len := by
      rw [pow_succ, mul_comm, Nat.mod_mul_right_div_self]
    have hmod : n % 256 ^ (len + 1) % 256 = n % 256 := Nat.mod_mod_of_dvd n (Dvd.intro_left (256 ^ len) rfl)
    simp only [beBytes, hdiv, hmod, ih]

theorem hexValue_hexChar {n : ℕ} (h : n < 16) : hexValue (hexChar n) = some n := by
  interval_cases n <;> decide

theorem decodeHex_encodeHex (bytes : List UInt8) : decodeHex (encodeHex bytes) = some bytes := by
  induction bytes with
  | nil => rfl
  | cons b bytes ih =>
    have hb := b.toNat_lt
    have hhigh : hexValue (hexChar (b.toNat / 16)) = some (b.toNat / 16) := hexValue_hexChar (by omega)
    have hlow : hexValue (hexChar (b.toNat % 16)) = some (b.toNat % 16) := hexValue_hexChar (by omega)
    have hbyte : UInt8.ofNat (b.toNat / 16 * 16 + b.toNat % 16) = b := by
      rw [Nat.div_add_mod']
      exact UInt8.ofNat_toNat
    rw [encodeHex] at ih
    simp only [encodeHex, List.flatMap_cons, List.cons_append, List.nil_append, decodeHex, hhigh, hlow, ih,
      Option.bind_eq_bind, Option.bind_some, hbyte]
    rfl

theorem hexChar_ascii {n : ℕ} (h : n < 16) : (hexChar n).utf8Size = 1 ∧ (hexChar n).toNat < 128 := by
  interval_cases n <;> decide

theorem mem_encodeHex {bytes : List UInt8} {c : Char} (h : c ∈ encodeHex bytes) : c.utf8Size = 1 ∧ c.toNat < 128 := by
  simp only [encodeHex, List.mem_flatMap, List.mem_cons, List.not_mem_nil, or_false] at h
  obtain ⟨b, _, rfl | rfl⟩ := h
  · have hb := b.toNat_lt
    exact hexChar_ascii (by omega)
  · exact hexChar_ascii (Nat.mod_lt _ (by decide))

theorem length_encodeHex (bytes : List UInt8) : (encodeHex bytes).length = 2 * bytes.length := by
  simp [encodeHex, List.length_flatMap, mul_comm]

/-! ## Cursors and pages -/

def maxStoreReadPageSize : ℕ := 256

def maxStoreReadCursorBytes : ℕ := 256

structure StoreReadCursor where
  asStr : String
  valid : asStr ≠ "" ∧ asStr.utf8ByteSize ≤ maxStoreReadCursorBytes ∧
    asStr.toList.all (fun c => decide (c.toNat < 128)) = true
  deriving DecidableEq

def StoreReadCursor.fromOpaque (value : String) : StoreResult StoreReadCursor :=
  if h : value ≠ "" ∧ value.utf8ByteSize ≤ maxStoreReadCursorBytes ∧
      value.toList.all (fun c => decide (c.toNat < 128)) = true then .ok ⟨value, h⟩
  else .error .boundsExceeded

structure StoreReadPage where
  cursor : Option StoreReadCursor
  limit : ℕ
  valid : limit ≠ 0 ∧ limit ≤ maxStoreReadPageSize
  deriving DecidableEq

structure EventReplayPage where
  events : List RuntimeEvent
  nextCursor : Option StoreReadCursor
  deriving DecidableEq

def EventReplayPage.new (events : List RuntimeEvent) (nextCursor : Option StoreReadCursor) :
    StoreResult EventReplayPage := do
  ensure (events.length ≤ maxStoreReadPageSize ∧ ¬(events = [] ∧ nextCursor.isSome)) .boundsExceeded
  ensure (∀ first ∈ events.head?, RuntimeEvent.validateBatch first.sequence events = .ok ()) .eventConflict
  return { events, nextCursor }

inductive HistoryCollection
  | events
  | steps
  | attempts
  deriving DecidableEq, Repr

def HistoryCollection.toByte : HistoryCollection → UInt8
  | .events => 1
  | .steps => 2
  | .attempts => 3

def HistoryCollection.ofByte (b : UInt8) : Option HistoryCollection :=
  if b = 1 then some .events else if b = 2 then some .steps else if b = 3 then some .attempts else none

structure CursorFields where
  ownerId : Uuid
  runId : Uuid
  collection : HistoryCollection
  snapshot : ℕ
  last : ℕ
  deriving DecidableEq

/-- The 50 bytes of a cursor before its digest. -/
def CursorFields.payload (c : CursorFields) : List UInt8 :=
  1 :: c.collection.toByte :: (beBytes 16 c.ownerId.toNat ++ beBytes 16 c.runId.toNat ++ beBytes 8 c.snapshot ++
    beBytes 8 c.last)

/-- The digest bytes of a cursor payload under the store's key. -/
def cursorDigest (digests : Digests) (cursorKey : BitVec 128) (payload : List UInt8) : List UInt8 :=
  beBytes 32 (digests.bytes (payload ++ beBytes 16 cursorKey.toNat)).toNat

def writeCursor (digests : Digests) (cursorKey : BitVec 128) (c : CursorFields) : StoreResult StoreReadCursor :=
  StoreReadCursor.fromOpaque
    (String.ofList ("sc1.".toList ++ encodeHex (c.payload ++ cursorDigest digests cursorKey c.payload)))

def decodeCursor (digests : Digests) (cursorKey : BitVec 128) (cursor : StoreReadCursor) :
    StoreResult CursorFields := do
  ensure ("sc1.".toList.isPrefixOf cursor.asStr.toList = true) .invalidRequest
  let bytes ← okOr (decodeHex (cursor.asStr.toList.drop 4)) .invalidRequest
  ensure (bytes.length = 82 ∧ bytes.head? = some 1) .invalidRequest
  let collection ← okOr (bytes[1]?.bind HistoryCollection.ofByte) .invalidRequest
  ensure (cursorDigest digests cursorKey (bytes.take 50) = bytes.drop 50) .invalidRequest
  return { ownerId := BitVec.ofNat 128 (ofBeBytes ((bytes.drop 2).take 16))
           runId := BitVec.ofNat 128 (ofBeBytes ((bytes.drop 18).take 16)), collection
           snapshot := ofBeBytes ((bytes.drop 34).take 8), last := ofBeBytes ((bytes.drop 42).take 8) }

theorem cursor_fields {o r s l d : List UInt8} (a b : UInt8) (ho : o.length = 16) (hr : r.length = 16)
    (hs : s.length = 8) (hl : l.length = 8) :
    let bytes := a :: b :: (o ++ r ++ s ++ l) ++ d
    (bytes.drop 2).take 16 = o ∧ (bytes.drop 18).take 16 = r ∧ (bytes.drop 34).take 8 = s ∧
      (bytes.drop 42).take 8 = l ∧ bytes.take 50 = a :: b :: (o ++ r ++ s ++ l) ∧ bytes.drop 50 = d := by
  refine ⟨?_, ?_, ?_, ?_, ?_, ?_⟩ <;>
    simp (disch := omega) [List.drop_append, List.take_append, List.take_of_length_le, List.drop_of_length_le, ho, hr, hs, hl]

theorem decodeCursor_writeCursor {digests : Digests} {cursorKey : BitVec 128} {c : CursorFields}
    {cursor : StoreReadCursor} (h : writeCursor digests cursorKey c = .ok cursor) (hs : c.snapshot < 2 ^ 64)
    (hl : c.last < 2 ^ 64) : decodeCursor digests cursorKey cursor = .ok c := by
  have hstr : cursor.asStr.toList =
      "sc1.".toList ++ encodeHex (c.payload ++ cursorDigest digests cursorKey c.payload) := by
    simp only [writeCursor, StoreReadCursor.fromOpaque] at h
    split_ifs at h
    cases h
    exact String.toList_ofList
  obtain ⟨h2, h18, h34, h42, h50, hd⟩ := cursor_fields (o := beBytes 16 c.ownerId.toNat)
    (r := beBytes 16 c.runId.toNat) (s := beBytes 8 c.snapshot) (l := beBytes 8 c.last)
    (d := cursorDigest digests cursorKey c.payload) 1 c.collection.toByte (length_beBytes _ _) (length_beBytes _ _)
    (length_beBytes _ _) (length_beBytes _ _)
  have hlen : (c.payload ++ cursorDigest digests cursorKey c.payload).length = 82 := by
    simp [CursorFields.payload, cursorDigest]
  have hcol : HistoryCollection.ofByte c.collection.toByte = some c.collection := by
    cases c.collection <;> decide
  have ho : BitVec.ofNat 128 (ofBeBytes (beBytes 16 c.ownerId.toNat)) = c.ownerId := by
    rw [ofBeBytes_beBytes _ _ c.ownerId.isLt]
    simp
  have hr : BitVec.ofNat 128 (ofBeBytes (beBytes 16 c.runId.toNat)) = c.runId := by
    rw [ofBeBytes_beBytes _ _ c.runId.isLt]
    simp
  have hbytes : okOr (decodeHex (cursor.asStr.toList.drop 4)) ExecutionStoreErrorCode.invalidRequest =
      .ok (c.payload ++ cursorDigest digests cursorKey c.payload) := by
    rw [hstr, okOr_eq_ok]
    exact decodeHex_encodeHex _
  simp only [decodeCursor, bind_eq_ok, ensure_eq_ok]
  refine ⟨(), ?_, _, hbytes, (), ⟨hlen, rfl⟩, c.collection, ?_, (), ?_, ?_⟩
  · rw [hstr]
    exact List.isPrefixOf_iff_prefix.mpr (List.prefix_append _ _)
  · exact okOr_eq_ok.mpr hcol
  · exact (congrArg _ h50).trans hd.symm
  · simp only [CursorFields.payload] at h2 h18 h34 h42 ⊢
    rw [h2, h18, h34, h42, ho, hr, ofBeBytes_beBytes _ _ hs, ofBeBytes_beBytes _ _ hl]
    rfl

theorem decodeCursor_scope {digests : Digests} {cursorKey : BitVec 128} {c : CursorFields} {cursor : StoreReadCursor}
    (h : writeCursor digests cursorKey c = .ok cursor) : ∃ snapshot last, decodeCursor digests cursorKey cursor =
      .ok { ownerId := c.ownerId, runId := c.runId, collection := c.collection, snapshot, last } := by
  refine ⟨c.snapshot % 256 ^ 8, c.last % 256 ^ 8, decodeCursor_writeCursor ?_ (Nat.mod_lt _ (by decide))
    (Nat.mod_lt _ (by decide))⟩
  rw [← h]
  simp only [writeCursor, CursorFields.payload, beBytes_mod]

theorem writeCursor_ok (digests : Digests) (cursorKey : BitVec 128) (c : CursorFields) :
    ∃ cursor, writeCursor digests cursorKey c = .ok cursor := by
  have hascii : ∀ d ∈ "sc1.".toList ++ encodeHex (c.payload ++ cursorDigest digests cursorKey c.payload),
      d.utf8Size = 1 ∧ d.toNat < 128 := by
    intro d hd
    obtain hd | hd := List.mem_append.mp hd
    · rw [show "sc1.".toList = ['s', 'c', '1', '.'] from rfl] at hd
      simp only [List.mem_cons, List.not_mem_nil, or_false] at hd
      rcases hd with rfl | rfl | rfl | rfl <;> decide
    · exact mem_encodeHex hd
  have hlen : ("sc1.".toList ++ encodeHex (c.payload ++ cursorDigest digests cursorKey c.payload)).length = 168 := by
    rw [List.length_append, length_encodeHex]
    simp [CursorFields.payload, cursorDigest]
  rw [writeCursor, StoreReadCursor.fromOpaque, dif_pos]
  · exact ⟨_, rfl⟩
  · refine ⟨?_, ?_, ?_⟩
    · intro hempty
      have hzero := congrArg (fun s => s.toList.length) hempty
      simp only [String.toList_ofList, hlen] at hzero
      exact absurd hzero (by decide)
    · rw [String.utf8ByteSize_ofList, utf8Len_eq_length fun d hd => (hascii d hd).1, hlen]
      decide
    · rw [String.toList_ofList, List.all_eq_true]
      intro d hd
      exact decide_eq_true (hascii d hd).2

/-- `read_window`: the snapshot bound and the last sequence already read. -/
def readWindow (digests : Digests) (cursorKey : BitVec 128) (ownerId runId : Uuid) (collection : HistoryCollection)
    (currentSnapshot : ℕ) (page : StoreReadPage) : StoreResult (ℕ × ℕ) :=
  match page.cursor with
  | none => .ok (currentSnapshot, 0)
  | some cursor => do
    let c ← decodeCursor digests cursorKey cursor
    ensure (c.ownerId = ownerId ∧ c.runId = runId ∧ c.collection = collection ∧ c.snapshot ≤ currentSnapshot ∧
      c.last < c.snapshot) .invalidRequest
    return (c.snapshot, c.last)

/-- The cursor after a page that has more behind it. -/
def nextEventCursor (digests : Digests) (cursorKey : BitVec 128) (ownerId runId : Uuid) (snapshot : ℕ)
    (events : List RuntimeEvent) (hasMore : Bool) : StoreResult (Option StoreReadCursor) :=
  if hasMore then do
    let last ← okOr (events.getLast?.map (·.sequence)) .eventConflict
    let cursor ← writeCursor digests cursorKey { ownerId, runId, collection := .events, snapshot, last }
    return some cursor
  else .ok none

def replayEvents (digests : Digests) (cursorKey : BitVec 128) (ownerId runId : Uuid) (page : StoreReadPage)
    (state : State) : StoreResult EventReplayPage := do
  let aggregate ← okOr state.runs[(ownerId, runId)]? .notFound
  let (snapshot, last) ← readWindow digests cursorKey ownerId runId .events aggregate.events.length page
  let taken := ((aggregate.events.take snapshot).drop last).take (page.limit + 1)
  let hasMore := decide (page.limit < taken.length)
  let events := if hasMore then taken.dropLast else taken
  let nextCursor ← nextEventCursor digests cursorKey ownerId runId snapshot events hasMore
  EventReplayPage.new events nextCursor

end AnimaCore
