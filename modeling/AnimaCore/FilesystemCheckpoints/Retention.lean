import AnimaCore.FilesystemCheckpoints
import AnimaCore.Lib.RefCount
import AnimaCore.Lib.Tally

/-!
# AnimaCore.FilesystemCheckpoints.Retention — which checkpoints to keep

`plan_checkpoint_retention`: the records are looked at from the oldest to the newest, and one that is neither pinned nor
the newest is dropped when it is expired or when what is left is over a limit.  The bytes in use are a running total over
objects that records share, kept by counting references.

* A failed `expect`, a missing key of an index and an underflowing subtraction are the fault `panicked`.
* `recordSize` is the size of the `serde_json` text of a record.
* `Accounts`: the counters of the loop say what the records that are left amount to; `dropRecord_accounts` is the step,
  through `Lib.RefCount`, and `pruneLoop_spec` the loop: it never panics, and it drops with reason.
-/

namespace AnimaCore.FilesystemCheckpoints

open Lib

inductive RetentionPin
  | activeTurn
  | inFlightEffect
  | restoreSelected
  | safety
  | recoveryRequired
  | uncertain
  deriving DecidableEq, Repr

structure RetentionRecord where
  checkpointId : String
  sequence : ℕ
  recordedAtMs : ℕ
  manifestBytes : ℕ
  objectDigests : List String
  pins : List RetentionPin
  deriving DecidableEq

structure RetentionPolicy where
  maxGroups : ℕ
  maxBytes : ℕ
  retentionMs : ℕ
  observedNowMs : ℕ
  lastObservedNowMs : ℕ
  requiredReserveBytes : ℕ
  deriving DecidableEq

structure RetentionProposal where
  retainedCheckpointIds : List String
  pruneCheckpointIds : List String
  pruneObjectDigests : List String
  usedBytesAfter : ℕ
  canReserve : Bool
  observedNowMs : ℕ
  deriving DecidableEq

/-- How a plan ends without a proposal: an error, or a panic. -/
inductive RetentionFault
  | rejected (error : CheckpointError)
  | panicked
  deriving DecidableEq, Repr

abbrev RetentionResult (α : Type) := Except RetentionFault α

/-- The `?` operator. -/
def CheckpointResult.orRejected {α : Type} (r : CheckpointResult α) : RetentionResult α :=
  match r with
  | .ok a => .ok a
  | .error e => .error (.rejected e)

def checkedSub (a b : ℕ) : RetentionResult ℕ := if b ≤ a then .ok (a - b) else .error .panicked

/-! ## Checks of the input -/

def addInventory (inventory : Table String ℕ) (object : BlobReference) : RetentionResult (Table String ℕ) := do
  (validateReference object).orRejected
  ensure (object.sha256 ∉ inventory) (.rejected .invalidRetention)
  return inventory.insert object.sha256 object.byteCount

/-- One turn of the loop over the protected objects. -/
def addProtected (inventory : Table String ℕ) (shielded : List String) (digest : String) :
    RetentionResult (List String) := do
  ensure (digest ∈ inventory ∧ digest ∉ shielded) (.rejected .invalidRetention)
  return digest :: shielded

/-- One turn of the loop over the objects of a record: the digests seen, and the references counted. -/
def addReference (inventory : Table String ℕ) (acc : List String × Table String ℕ) (digest : String) :
    RetentionResult (List String × Table String ℕ) := do
  ensure (digest ∈ inventory ∧ digest ∉ acc.1) (.rejected .invalidRetention)
  return (digest :: acc.1, acc.2.insert digest (acc.2[digest]?.getD 0 + 1))

structure RecordLoop where
  ids : List String
  sequences : List ℕ
  references : Table String ℕ
  manifestBytes : ℕ

def RecordLoop.next (recordSize : RetentionRecord → ℕ) (inventory : Table String ℕ) (loop : RecordLoop)
    (record : RetentionRecord) : RetentionResult RecordLoop := do
  ensure (validCheckpointId record.checkpointId = true ∧ record.sequence ≠ 0 ∧ record.checkpointId ∉ loop.ids ∧
    record.sequence ∉ loop.sequences ∧ record.manifestBytes ≠ 0) (.rejected .invalidRetention)
  ensure (record.manifestBytes ≤ maxCheckpointManifestBytes ∧ record.objectDigests.length ≤ maxCheckpointEntries ∧
    record.pins.length ≤ 6) (.rejected .budget)
  (boundedJson (recordSize record)).orRejected
  ensure record.pins.Nodup (.rejected .invalidRetention)
  let acc ← record.objectDigests.foldlM (addReference inventory) ([], loop.references)
  let manifestBytes ← okOr (checkedAdd 64 loop.manifestBytes record.manifestBytes) (.rejected .budget)
  return { ids := record.checkpointId :: loop.ids, sequences := record.sequence :: loop.sequences, references := acc.2
           manifestBytes }

/-- One turn of the loop that adds up what is in use. -/
def addUsed (references : Table String ℕ) (shielded : List String) (used : ℕ) (entry : String × ℕ) :
    RetentionResult ℕ :=
  if entry.1 ∈ references ∨ entry.1 ∈ shielded then okOr (checkedAdd 64 used entry.2) (.rejected .budget) else .ok used

/-! ## The loop that prunes -/

structure PruneState where
  count : ℕ
  used : ℕ
  references : Table String ℕ

def dropReference (inventory : Table String ℕ) (shielded : List String) (st : PruneState) (digest : String) :
    RetentionResult PruneState := do
  let counted ← okOr st.references[digest]? .panicked
  let remaining ← checkedSub counted 1
  let references := st.references.insert digest remaining
  if remaining = 0 ∧ digest ∉ shielded then
    let bytes ← okOr inventory[digest]? .panicked
    let used ← checkedSub st.used bytes
    return { st with used, references }
  else return { st with references }

def dropRecord (inventory : Table String ℕ) (shielded : List String) (st : PruneState) (record : RetentionRecord) :
    RetentionResult PruneState := do
  let count ← checkedSub st.count 1
  let used ← checkedSub st.used record.manifestBytes
  record.objectDigests.foldlM (dropReference inventory shielded) { st with count, used }

/-- `used.checked_add(policy.required_reserve_bytes).is_some_and(|bytes| bytes <= policy.max_bytes)`. -/
def RetentionPolicy.fits (policy : RetentionPolicy) (used : ℕ) : Bool :=
  (checkedAdd 64 used policy.requiredReserveBytes).any fun bytes => decide (bytes ≤ policy.maxBytes)

def RetentionPolicy.expired (policy : RetentionPolicy) (now : ℕ) (record : RetentionRecord) : Bool :=
  decide (policy.retentionMs ≤ now - record.recordedAtMs)

/-- The loop over the ordered records: each with whether it is retained, and the counters after it. -/
def pruneLoop (policy : RetentionPolicy) (now : ℕ) (inventory : Table String ℕ) (shielded : List String) :
    List RetentionRecord → PruneState → RetentionResult (List (RetentionRecord × Bool) × PruneState)
  | [], st => .ok ([], st)
  | record :: rest, st => do
    if rest = [] ∨ record.pins ≠ [] ∨
        (policy.expired now record = false ∧ st.count ≤ policy.maxGroups ∧ policy.fits st.used = true) then
      let out ← pruneLoop policy now inventory shielded rest st
      return ((record, true) :: out.1, out.2)
    else
      let st ← dropRecord inventory shielded st record
      let out ← pruneLoop policy now inventory shielded rest st
      return ((record, false) :: out.1, out.2)

def planCheckpointRetention (recordSize : RetentionRecord → ℕ) (records : List RetentionRecord)
    (objects : List BlobReference) (protectedObjects : List String) (policy : RetentionPolicy) :
    RetentionResult RetentionProposal := do
  ensure (records.length ≤ maxCheckpointHistoryRecords ∧ objects.length ≤ maxCheckpointEntries ∧
    protectedObjects.length ≤ maxCheckpointEntries) (.rejected .budget)
  ensure (policy.maxGroups ≠ 0 ∧ policy.maxGroups ≤ maxCheckpointHistoryRecords ∧ policy.maxBytes ≠ 0 ∧
    policy.maxBytes ≤ maxCheckpointStoreBytes ∧ policy.retentionMs ≠ 0) (.rejected .invalidRetention)
  let now := max policy.observedNowMs policy.lastObservedNowMs
  let inventory ← objects.foldlM addInventory ∅
  let shielded ← protectedObjects.foldlM (addProtected inventory) []
  let loop ← records.foldlM (RecordLoop.next recordSize inventory)
    { ids := [], sequences := [], references := ∅, manifestBytes := 0 }
  let used ← inventory.toList.foldlM (addUsed loop.references shielded) loop.manifestBytes
  let ordered := records.insertionSort fun a b => a.sequence ≤ b.sequence
  let out ← pruneLoop policy now inventory shielded ordered
    { count := ordered.length, used, references := loop.references }
  return { retainedCheckpointIds := (out.1.filter (·.2)).map (·.1.checkpointId)
           pruneCheckpointIds := (out.1.filter (!·.2)).map (·.1.checkpointId)
           pruneObjectDigests := (inventory.toList.map (·.1)).filter fun digest =>
             decide (out.2.references[digest]?.getD 0 = 0 ∧ digest ∉ shielded)
           usedBytesAfter := out.2.used
           canReserve := decide (out.2.count ≤ policy.maxGroups) && policy.fits out.2.used
           observedNowMs := now }

/-! ## Dropping a record -/

variable {inventory : Table String ℕ} {shielded : List String} {left kept rest : List RetentionRecord}
  {record : RetentionRecord} {st : PruneState} {policy : RetentionPolicy} {now : ℕ}

theorem checkedSub_eq {a b : ℕ} (h : b ≤ a) : checkedSub a b = .ok (a - b) := if_pos h

/-- The objects that some records refer to, by record. -/
def holdersOf (left : List RetentionRecord) : List (List String) := left.map (·.objectDigests)

/-- The weight of the objects that are protected or referred to. -/
def heldBytes (inventory : Table String ℕ) (shielded : List String) (holders : List (List String)) : ℕ :=
  liveWeight (fun digest => decide (digest ∈ shielded)) inventory.toList holders

/-- The bytes of some records with the objects they share. -/
def bytesLeft (inventory : Table String ℕ) (shielded : List String) (left : List RetentionRecord) : ℕ :=
  (left.map (·.manifestBytes)).sum + heldBytes inventory shielded (holdersOf left)

/-- The counters say what the records that are left amount to. -/
structure Accounts (inventory : Table String ℕ) (shielded : List String) (left : List RetentionRecord)
    (st : PruneState) : Prop where
  count : st.count = left.length
  used : st.used = bytesLeft inventory shielded left
  references : ∀ digest : String, st.references[digest]?.getD 0 = refs (holdersOf left) digest

theorem bytesLeft_perm {left' : List RetentionRecord} (h : left.Perm left') :
    bytesLeft inventory shielded left = bytesLeft inventory shielded left' := by
  unfold bytesLeft heldBytes holdersOf
  rw [(h.map _).sum_eq, liveWeight_perm (h.map _)]

theorem Accounts.perm {left' : List RetentionRecord} (hacc : Accounts inventory shielded left st) (h : left.Perm left') :
    Accounts inventory shielded left' st := by
  refine ⟨hacc.count.trans h.length_eq, hacc.used.trans (bytesLeft_perm h), fun digest => ?_⟩
  rw [hacc.references]
  exact refs_perm (h.map _) digest

theorem dropReference_spec {keys : List String} {holders : List (List String)} {digest : String} {base : ℕ}
    (hused : st.used = base + heldBytes inventory shielded ((digest :: keys) :: holders))
    (hrefs : ∀ d : String, st.references[d]?.getD 0 = refs ((digest :: keys) :: holders) d) (hnew : digest ∉ keys)
    (hmem : digest ∈ inventory) :
    ∃ st', dropReference inventory shielded st digest = .ok st' ∧ st'.count = st.count ∧
      st'.used = base + heldBytes inventory shielded (keys :: holders) ∧
      ∀ d : String, st'.references[d]?.getD 0 = refs (keys :: holders) d := by
  obtain ⟨bytes, hbytes⟩ := Option.isSome_iff_exists.mp (Table.mem_iff_getElem?_isSome.mp hmem)
  have hrelease := liveWeight_release (fun d => decide (d ∈ shielded)) holders (Table.nodup_toList_fst inventory)
    (Table.mem_toList.mpr hbytes) hnew
  have hcount : refs ((digest :: keys) :: holders) digest = refs (keys :: holders) digest + 1 := by
    rw [refs_release hnew, if_pos rfl]
  obtain ⟨counted, hcounted⟩ : ∃ counted, st.references[digest]? = some counted := by
    have := hrefs digest
    rw [hcount] at this
    cases hget : st.references[digest]? with
    | none => simp [hget] at this
    | some counted => exact ⟨counted, rfl⟩
  have heq : counted = refs (keys :: holders) digest + 1 := by
    have := hrefs digest
    rw [hcounted, hcount] at this
    exact this
  have hnext : ∀ d : String, (st.references.insert digest (counted - 1))[d]?.getD 0 = refs (keys :: holders) d := by
    intro d
    rw [Table.getElem?_insert_eq]
    by_cases hd : digest = d
    · subst hd
      rw [if_pos rfl, Option.getD_some, heq, Nat.add_sub_cancel]
    · rw [if_neg hd, hrefs d, refs_release hnew, if_neg (Ne.symm hd), Nat.add_zero]
  unfold heldBytes at hused ⊢
  by_cases hlast : counted - 1 = 0 ∧ digest ∉ shielded
  · -- the last reference to an object that nothing protects
    have hzero : refs (keys :: holders) digest = 0 ∧ decide (digest ∈ shielded) = false :=
      ⟨by omega, by simpa using hlast.2⟩
    rw [if_pos hzero] at hrelease
    refine ⟨{ st with used := st.used - bytes, references := st.references.insert digest (counted - 1) }, ?_, rfl, ?_,
      hnext⟩
    · simp only [dropReference, bind_eq_ok, okOr_eq_ok]
      refine ⟨counted, hcounted, counted - 1, checkedSub_eq (by omega), ?_⟩
      rw [if_pos hlast]
      simp only [bind_eq_ok, okOr_eq_ok]
      exact ⟨bytes, hbytes, _, checkedSub_eq (by omega), rfl⟩
    · show st.used - bytes = _
      omega
  · have hheld : ¬ (refs (keys :: holders) digest = 0 ∧ decide (digest ∈ shielded) = false) := by
      rintro ⟨hzero, hfree⟩
      exact hlast ⟨by omega, by simpa using hfree⟩
    rw [if_neg hheld] at hrelease
    refine ⟨{ st with references := st.references.insert digest (counted - 1) }, ?_, rfl, ?_, hnext⟩
    · simp only [dropReference, bind_eq_ok, okOr_eq_ok]
      refine ⟨counted, hcounted, counted - 1, checkedSub_eq (by omega), ?_⟩
      rw [if_neg hlast]
      rfl
    · show st.used = _
      omega

theorem dropReferences_spec {keys : List String} {holders : List (List String)} {base : ℕ}
    (hused : st.used = base + heldBytes inventory shielded (keys :: holders))
    (hrefs : ∀ d : String, st.references[d]?.getD 0 = refs (keys :: holders) d) (hnd : keys.Nodup)
    (hmem : ∀ digest ∈ keys, digest ∈ inventory) :
    ∃ st', keys.foldlM (dropReference inventory shielded) st = .ok st' ∧ st'.count = st.count ∧
      st'.used = base + heldBytes inventory shielded holders ∧
      ∀ d : String, st'.references[d]?.getD 0 = refs holders d := by
  induction keys generalizing st with
  | nil =>
    refine ⟨st, rfl, rfl, ?_, fun d => ?_⟩
    · rw [hused]
      unfold heldBytes
      rw [liveWeight_nil]
    · rw [hrefs, refs_nil]
  | cons digest keys ih =>
    obtain ⟨hnew, hnd⟩ := List.nodup_cons.mp hnd
    obtain ⟨st₁, hstep, hcount₁, hused₁, hrefs₁⟩ := dropReference_spec hused hrefs hnew (hmem digest List.mem_cons_self)
    obtain ⟨st', hrest, hcount', hused', hrefs'⟩ := ih hused₁ hrefs₁ hnd fun d hd => hmem d (List.mem_cons_of_mem _ hd)
    refine ⟨st', ?_, hcount'.trans hcount₁, hused', hrefs'⟩
    rw [List.foldlM_cons, bind_eq_ok]
    exact ⟨st₁, hstep, hrest⟩

/-- What the checks of the input establish of a record. -/
structure CheckedRecord (inventory : Table String ℕ) (record : RetentionRecord) : Prop where
  distinct : record.objectDigests.Nodup
  known : ∀ digest ∈ record.objectDigests, digest ∈ inventory

theorem dropRecord_accounts (hacc : Accounts inventory shielded (record :: left) st)
    (hchecked : CheckedRecord inventory record) :
    ∃ st', dropRecord inventory shielded st record = .ok st' ∧ Accounts inventory shielded left st' := by
  obtain ⟨hcount, hused, hrefs⟩ := hacc
  have hbytes : bytesLeft inventory shielded (record :: left) = record.manifestBytes +
      ((left.map (·.manifestBytes)).sum + heldBytes inventory shielded (record.objectDigests :: holdersOf left)) := by
    unfold bytesLeft holdersOf
    rw [List.map_cons, List.sum_cons, List.map_cons]
    omega
  rw [List.length_cons] at hcount
  have hstart : ({ st with count := st.count - 1, used := st.used - record.manifestBytes } : PruneState).used =
      (left.map (·.manifestBytes)).sum + heldBytes inventory shielded (record.objectDigests :: holdersOf left) := by
    show st.used - record.manifestBytes = _
    omega
  obtain ⟨st', hloop, hcount', hused', hrefs'⟩ := dropReferences_spec hstart hrefs hchecked.distinct hchecked.known
  refine ⟨st', ?_, ⟨?_, hused', hrefs'⟩⟩
  · simp only [dropRecord, bind_eq_ok]
    exact ⟨_, checkedSub_eq (by omega), _, checkedSub_eq (by omega), hloop⟩
  · rw [hcount']
    show st.count - 1 = _
    omega

/-! ## The loop -/

/-- The retained records of a list of decisions. -/
def keptOf (decisions : List (RetentionRecord × Bool)) : List RetentionRecord := (decisions.filter (·.2)).map (·.1)

def Over (policy : RetentionPolicy) (inventory : Table String ℕ) (shielded : List String) (left : List RetentionRecord) :
    Prop :=
  policy.maxGroups < left.length ∨ policy.fits (bytesLeft inventory shielded left) = false

/-- **The loop never panics and drops with reason**: a dropped record is unpinned and not the newest, and it is expired
or what was left when it was looked at was over a limit.  By induction on the records still to be looked at; `kept` are
those retained before. -/
theorem pruneLoop_spec (hchecked : ∀ r ∈ rest, CheckedRecord inventory r)
    (hacc : Accounts inventory shielded (kept ++ rest) st) :
    ∃ decisions st', pruneLoop policy now inventory shielded rest st = .ok (decisions, st') ∧
      decisions.map (·.1) = rest ∧ Accounts inventory shielded (kept ++ keptOf decisions) st' ∧
      ∀ before r after, decisions = before ++ (r, false) :: after → after ≠ [] ∧ r.pins = [] ∧
        (policy.expired now r = true ∨
          Over policy inventory shielded (kept ++ (keptOf before ++ r :: after.map (·.1)))) := by
  induction rest generalizing kept st with
  | nil => exact ⟨[], st, rfl, rfl, hacc, fun before r after h => by simp at h⟩
  | cons record rest ih =>
    have hrest : ∀ r ∈ rest, CheckedRecord inventory r := fun r hr => hchecked r (List.mem_cons_of_mem _ hr)
    unfold pruneLoop
    by_cases hkeep : rest = [] ∨ record.pins ≠ [] ∨
        (policy.expired now record = false ∧ st.count ≤ policy.maxGroups ∧ policy.fits st.used = true)
    · have hacc' : Accounts inventory shielded ((kept ++ [record]) ++ rest) st := by
        rw [List.append_assoc]
        exact hacc
      obtain ⟨decisions, st', hloop, hmap, hfinal, hwhy⟩ := ih hrest hacc'
      refine ⟨(record, true) :: decisions, st', ?_, by rw [List.map_cons, hmap], ?_, ?_⟩
      · rw [if_pos hkeep, bind_eq_ok]
        exact ⟨_, hloop, rfl⟩
      · rw [List.append_assoc] at hfinal
        exact hfinal
      · intro before r after hsplit
        cases before with
        | nil => cases hsplit
        | cons first before =>
          rw [List.cons_append, List.cons.injEq] at hsplit
          obtain ⟨rfl, hsplit⟩ := hsplit
          obtain ⟨hafter, hpins, hreason⟩ := hwhy before r after hsplit
          rw [List.append_assoc] at hreason
          exact ⟨hafter, hpins, hreason⟩
    · have hdrop : Accounts inventory shielded (record :: (kept ++ rest)) st := hacc.perm List.perm_middle
      obtain ⟨st₁, hstep, hacc₁⟩ := dropRecord_accounts hdrop (hchecked record List.mem_cons_self)
      obtain ⟨decisions, st', hloop, hmap, hfinal, hwhy⟩ := ih hrest hacc₁
      refine ⟨(record, false) :: decisions, st', ?_, by rw [List.map_cons, hmap], hfinal, ?_⟩
      · rw [if_neg hkeep, bind_eq_ok]
        refine ⟨st₁, hstep, ?_⟩
        rw [bind_eq_ok]
        exact ⟨_, hloop, rfl⟩
      · intro before r after hsplit
        cases before with
        | nil =>
          rw [List.nil_append, List.cons.injEq, Prod.mk.injEq] at hsplit
          obtain ⟨⟨rfl, -⟩, rfl⟩ := hsplit
          push Not at hkeep
          obtain ⟨hnewest, hpins, hover⟩ := hkeep
          refine ⟨?_, hpins, ?_⟩
          · rintro rfl
            exact hnewest hmap.symm
          · rw [or_iff_not_imp_left]
            intro hfresh
            rw [hmap]
            have hfresh : policy.expired now record = false := by simpa using hfresh
            show policy.maxGroups < (kept ++ record :: rest).length ∨
              policy.fits (bytesLeft inventory shielded (kept ++ record :: rest)) = false
            rw [← hacc.count, ← hacc.used]
            by_cases hgroups : st.count ≤ policy.maxGroups
            · exact .inr (by simpa using hover hfresh hgroups)
            · exact .inl (Nat.lt_of_not_le hgroups)
        | cons first before =>
          rw [List.cons_append, List.cons.injEq] at hsplit
          obtain ⟨rfl, hsplit⟩ := hsplit
          exact hwhy before r after hsplit

end AnimaCore.FilesystemCheckpoints
