import AnimaCore.FilesystemCheckpoints.Retention

/-!
# AnimaCore.FilesystemCheckpoints.RetentionExact — a retention plan is exact

What the checks of `plan_checkpoint_retention` establish of its input (`inventory_spec`, `addReferences_spec`,
`records_spec`, `used_spec`) starts the loop that prunes with the right accounts; `pruneLoop_spec` runs it, and the
decisions of the loop are read back as sets of records (`keptOf_eq_filter`, `leftAt_eq`).

* `RetentionProposal.Exact`: what a plan says, in terms of the input alone.
-/

namespace AnimaCore.FilesystemCheckpoints

open Lib

variable {inventory : Table String ℕ} {shielded : List String} {records ordered : List RetentionRecord}
  {objects : List BlobReference} {protectedObjects : List String} {policy : RetentionPolicy} {now : ℕ}
  {recordSize : RetentionRecord → ℕ}

/-! ## The input -/

theorem inventory_spec (h : objects.foldlM addInventory ∅ = .ok inventory) :
    inventory.toList.Perm (objects.map fun o => (o.sha256, o.byteCount)) := by
  refine foldlM_induction
    (P := fun pre (inventory : Table String ℕ) => inventory.toList.Perm (pre.map fun o => (o.sha256, o.byteCount))) h ?_ ?_
  · simp
  · intro pre object post before after _ hbefore hstep
    unfold addInventory at hstep
    simp only [bind_eq_ok, ensure_eq_ok] at hstep
    obtain ⟨_, _, _, hnew, hstep⟩ := hstep
    cases hstep
    rw [List.map_append]
    exact (Table.toList_insert_perm hnew).trans ((hbefore.cons _).trans (List.perm_append_singleton _ _).symm)

theorem shielded_spec (h : protectedObjects.foldlM (addProtected inventory) [] = .ok shielded) :
    shielded = protectedObjects.reverse := by
  refine foldlM_induction (P := fun pre shielded => shielded = pre.reverse) h rfl ?_
  intro pre digest post before after _ hbefore hstep
  unfold addProtected at hstep
  simp only [bind_eq_ok, ensure_eq_ok] at hstep
  obtain ⟨_, _, hstep⟩ := hstep
  cases hstep
  rw [hbefore, List.reverse_append]
  rfl

theorem addReferences_spec {keys : List String} {t : Table String ℕ} {n : String → ℕ} {acc : List String × Table String ℕ}
    (h : keys.foldlM (addReference inventory) ([], t) = .ok acc) (ht : Tally.Counts t n) :
    keys.Nodup ∧ (∀ digest ∈ keys, digest ∈ inventory) ∧
      Tally.Counts acc.2 fun a => n a + if a ∈ keys then 1 else 0 := by
  have hread : acc.1 = keys.reverse ∧ keys.Nodup ∧ (∀ digest ∈ keys, digest ∈ inventory) ∧
      Tally.Counts acc.2 fun a => n a + if a ∈ keys then 1 else 0 := by
    refine foldlM_induction (P := fun pre acc => acc.1 = pre.reverse ∧ pre.Nodup ∧ (∀ digest ∈ pre, digest ∈ inventory) ∧
      Tally.Counts acc.2 fun a => n a + if a ∈ pre then 1 else 0) h ?_ ?_
    · exact ⟨rfl, List.nodup_nil, by simp, ht.congr fun a => by simp⟩
    · intro pre digest post before after _ hbefore hstep
      obtain ⟨hseen, hnd, hknown, hcounts⟩ := hbefore
      unfold addReference at hstep
      simp only [bind_eq_ok, ensure_eq_ok] at hstep
      obtain ⟨_, ⟨hmem, hnew⟩, hstep⟩ := hstep
      cases hstep
      have hnew : digest ∉ pre := by simpa [hseen] using hnew
      refine ⟨by rw [hseen, List.reverse_append]; rfl, ?_, ?_, ?_⟩
      · rw [List.nodup_append_comm]
        exact List.nodup_cons.mpr ⟨hnew, hnd⟩
      · intro d hd
        rcases List.mem_append.mp hd with hd | hd
        · exact hknown d hd
        · rw [List.mem_singleton.mp hd]
          exact hmem
      · refine (hcounts.bump digest).congr fun a => ?_
        by_cases ha : digest = a
        · subst ha
          simp [hnew]
        · simp [ha, Ne.symm ha]
  exact ⟨hread.2.1, hread.2.2.1, hread.2.2.2⟩

structure RecordLoop.Read (inventory : Table String ℕ) (pre : List RetentionRecord) (loop : RecordLoop) : Prop where
  ids : loop.ids = (pre.map (·.checkpointId)).reverse
  sequences : loop.sequences = (pre.map (·.sequence)).reverse
  distinctIds : (pre.map (·.checkpointId)).Nodup
  distinctSequences : (pre.map (·.sequence)).Nodup
  checked : ∀ r ∈ pre, CheckedRecord inventory r
  references : Tally.Counts loop.references (refs (holdersOf pre))
  manifestBytes : loop.manifestBytes = (pre.map (·.manifestBytes)).sum

theorem refs_holdersOf_append (pre : List RetentionRecord) (record : RetentionRecord) (a : String) :
    refs (holdersOf (pre ++ [record])) a = refs (holdersOf pre) a + if a ∈ record.objectDigests then 1 else 0 := by
  unfold holdersOf refs
  rw [List.map_append, List.countP_append, List.map_singleton, List.countP_singleton]
  simp

theorem records_spec {loop : RecordLoop} (h : records.foldlM (RecordLoop.next recordSize inventory)
    { ids := [], sequences := [], references := ∅, manifestBytes := 0 } = .ok loop) :
    RecordLoop.Read inventory records loop := by
  refine foldlM_induction (P := RecordLoop.Read inventory) h ?_ ?_
  · exact ⟨rfl, rfl, List.nodup_nil, List.nodup_nil, by simp, Tally.counts_empty, rfl⟩
  · intro pre record post before after _ hbefore hstep
    obtain ⟨hids, hsequences, hndIds, hndSequences, hchecked, hrefs, hbytes⟩ := hbefore
    unfold RecordLoop.next at hstep
    simp only [bind_eq_ok, ensure_eq_ok, okOr_eq_ok, checkedAdd_eq_some] at hstep
    obtain ⟨_, ⟨_, _, hid, hsequence, _⟩, _, _, _, _, _, _, acc, hacc, bytes, ⟨_, rfl⟩, hstep⟩ := hstep
    cases hstep
    obtain ⟨hnd, hknown, hcounts⟩ := addReferences_spec hacc hrefs
    rw [hids, List.mem_reverse] at hid
    rw [hsequences, List.mem_reverse] at hsequence
    refine ⟨?_, ?_, ?_, ?_, ?_, ?_, ?_⟩
    · rw [hids, List.map_append, List.reverse_append]
      rfl
    · rw [hsequences, List.map_append, List.reverse_append]
      rfl
    · rw [List.map_append, List.nodup_append_comm]
      exact List.nodup_cons.mpr ⟨hid, hndIds⟩
    · rw [List.map_append, List.nodup_append_comm]
      exact List.nodup_cons.mpr ⟨hsequence, hndSequences⟩
    · intro r hr
      rcases List.mem_append.mp hr with hr | hr
      · exact hchecked r hr
      · rw [List.mem_singleton.mp hr]
        exact ⟨hnd, hknown⟩
    · exact hcounts.congr fun a => (refs_holdersOf_append pre record a).symm
    · rw [List.map_append, List.sum_append, hbytes]
      simp

theorem used_spec {l : List (String × ℕ)} {references : Table String ℕ} {holders : List (List String)} {base used : ℕ}
    (h : l.foldlM (addUsed references shielded) base = .ok used) (hrefs : Tally.Counts references (refs holders)) :
    used = base + liveWeight (fun digest => decide (digest ∈ shielded)) l holders := by
  refine foldlM_induction (P := fun pre used =>
    used = base + liveWeight (fun digest => decide (digest ∈ shielded)) pre holders) h rfl ?_
  intro pre entry post before after _ hbefore hstep
  unfold addUsed at hstep
  unfold liveWeight at hbefore ⊢
  have hlive : live (fun digest => decide (digest ∈ shielded)) holders entry.1 = true ↔
      entry.1 ∈ references ∨ entry.1 ∈ shielded := by
    unfold live
    rw [hrefs.mem_iff, Nat.pos_iff_ne_zero]
    simp [or_comm]
  rw [List.filter_append, List.map_append, List.sum_append]
  by_cases hheld : entry.1 ∈ references ∨ entry.1 ∈ shielded
  · rw [if_pos hheld, okOr_eq_ok, checkedAdd_eq_some] at hstep
    rw [List.filter_cons, if_pos (hlive.mpr hheld), hstep.2, hbefore]
    simp [Nat.add_assoc]
  · rw [if_neg hheld] at hstep
    cases hstep
    rw [List.filter_cons, if_neg fun hp => hheld (hlive.mp hp), hbefore]
    simp

/-! ## Decisions as sets of records -/

variable {decisions before after : List (RetentionRecord × Bool)} {r : RetentionRecord} {keep : Bool}

def keptIds (decisions : List (RetentionRecord × Bool)) : List String :=
  (decisions.filter (·.2)).map (·.1.checkpointId)

def droppedIds (decisions : List (RetentionRecord × Bool)) : List String :=
  (decisions.filter (!·.2)).map (·.1.checkpointId)

theorem split_perm (decisions : List (RetentionRecord × Bool)) :
    (keptIds decisions ++ droppedIds decisions).Perm ((decisions.map (·.1)).map (·.checkpointId)) := by
  unfold keptIds droppedIds
  rw [← List.map_append, List.map_map]
  exact (List.filter_append_perm _ _).map _

theorem mem_decided_iff (chosen : Bool → Bool) (hnd : ((decisions.map (·.1)).map (·.checkpointId)).Nodup)
    (h : (r, keep) ∈ decisions) :
    r.checkpointId ∈ (decisions.filter fun d => chosen d.2).map (·.1.checkpointId) ↔ chosen keep = true := by
  rw [List.mem_map]
  constructor
  · rintro ⟨⟨r', keep'⟩, hmem, hid⟩
    obtain ⟨hmem, hkeep⟩ := List.mem_filter.mp hmem
    rw [List.map_map] at hnd
    cases List.inj_on_of_nodup_map hnd hmem h hid
    exact hkeep
  · intro hkeep
    exact ⟨(r, keep), List.mem_filter.mpr ⟨h, hkeep⟩, rfl⟩

theorem mem_keptIds_iff (hnd : ((decisions.map (·.1)).map (·.checkpointId)).Nodup) (h : (r, keep) ∈ decisions) :
    r.checkpointId ∈ keptIds decisions ↔ keep = true := mem_decided_iff (fun keep => keep) hnd h

theorem mem_droppedIds_iff (hnd : ((decisions.map (·.1)).map (·.checkpointId)).Nodup) (h : (r, keep) ∈ decisions) :
    r.checkpointId ∈ droppedIds decisions ↔ keep = false := by
  rw [← Bool.not_eq_true']
  exact mem_decided_iff (fun keep => !keep) hnd h

theorem keptOf_eq_filter {part : List (RetentionRecord × Bool)}
    (hnd : ((decisions.map (·.1)).map (·.checkpointId)).Nodup) (hpart : part ⊆ decisions) :
    keptOf part = (part.map (·.1)).filter fun r => decide (r.checkpointId ∈ keptIds decisions) := by
  unfold keptOf
  rw [List.filter_map]
  refine congrArg _ (List.filter_congr ?_)
  rintro ⟨r, keep⟩ hmem
  show keep = decide (r.checkpointId ∈ keptIds decisions)
  rw [Bool.eq_iff_iff, decide_eq_true_eq]
  exact (mem_keptIds_iff hnd (hpart hmem)).symm

theorem leftAt_eq (hnd : ((decisions.map (·.1)).map (·.checkpointId)).Nodup)
    (hsorted : (decisions.map (·.1)).Pairwise fun a b => a.sequence < b.sequence)
    (hsplit : decisions = before ++ (r, keep) :: after) :
    keptOf before ++ r :: after.map (·.1) = (decisions.map (·.1)).filter fun x =>
      decide (x.checkpointId ∈ keptIds decisions ∨ r.sequence ≤ x.sequence) := by
  have hordered : decisions.map (·.1) = before.map (·.1) ++ r :: after.map (·.1) := by
    rw [hsplit, List.map_append, List.map_cons]
  rw [hordered] at hsorted ⊢
  obtain ⟨_, hafter, hbefore⟩ := List.pairwise_append.mp hsorted
  have hsub : before ⊆ decisions := by
    rw [hsplit]
    exact List.subset_append_left _ _
  rw [List.filter_append, keptOf_eq_filter hnd hsub]
  congr 1
  · -- the records before it have smaller sequences
    refine List.filter_congr fun x hx => ?_
    have hlt : x.sequence < r.sequence := hbefore x hx r List.mem_cons_self
    have hle : ¬ r.sequence ≤ x.sequence := by omega
    simp only [hle, or_false]
  · refine (List.filter_eq_self.mpr fun x hx => ?_).symm
    rw [decide_eq_true_eq]
    rcases List.mem_cons.mp hx with rfl | hx
    · exact .inr (Nat.le_refl _)
    · exact .inr (Nat.le_of_lt ((List.pairwise_cons.mp hafter).1 x hx))

/-! ## The bytes -/

/-- The bytes of some records: their manifests, and the distinct objects that are protected or that one of them refers
to. -/
def bytesOf (objects : List BlobReference) (protectedObjects : List String) (S : List RetentionRecord) : ℕ :=
  (S.map (·.manifestBytes)).sum + ((objects.filter fun o =>
    decide (o.sha256 ∈ protectedObjects ∨ ∃ r ∈ S, o.sha256 ∈ r.objectDigests)).map (·.byteCount)).sum

theorem refs_holdersOf_ne_zero_iff {S : List RetentionRecord} {digest : String} :
    refs (holdersOf S) digest ≠ 0 ↔ ∃ r ∈ S, digest ∈ r.objectDigests := by
  rw [refs_ne_zero_iff]
  unfold holdersOf
  simp only [List.mem_map, exists_exists_and_eq_and]

theorem bytesLeft_eq_bytesOf (hinventory : inventory.toList.Perm (objects.map fun o => (o.sha256, o.byteCount)))
    (S : List RetentionRecord) :
    bytesLeft inventory protectedObjects.reverse S = bytesOf objects protectedObjects S := by
  unfold bytesLeft bytesOf heldBytes liveWeight
  congr 1
  rw [((hinventory.filter _).map _).sum_eq, List.filter_map, List.map_map]
  refine congrArg List.sum (congrArg _ (List.filter_congr fun o _ => ?_))
  simp only [Function.comp_apply, live]
  rw [Bool.eq_iff_iff, Bool.or_eq_true, decide_eq_true_eq, decide_eq_true_eq, decide_eq_true_eq, List.mem_reverse,
    refs_holdersOf_ne_zero_iff]

theorem fits_iff (hmax : policy.maxBytes ≤ maxCheckpointStoreBytes) {used : ℕ} :
    policy.fits used = true ↔ used + policy.requiredReserveBytes ≤ policy.maxBytes := by
  unfold RetentionPolicy.fits checkedAdd
  unfold maxCheckpointStoreBytes at hmax
  split_ifs with hword
  · simp
  · simp
    omega

/-! ## No panic -/

def NoPanic {α : Type} (x : RetentionResult α) : Prop := x ≠ .error .panicked

theorem noPanic_ok {α : Type} (a : α) : NoPanic (.ok a) := by
  simp [NoPanic]

theorem noPanic_ensure {p : Prop} [Decidable p] {e : CheckpointError} : NoPanic (ensure p (.rejected e)) := by
  unfold ensure
  split_ifs
  · exact noPanic_ok _
  · simp [NoPanic]

theorem noPanic_okOr {α : Type} {o : Option α} {e : CheckpointError} : NoPanic (okOr o (.rejected e)) := by
  cases o <;> simp [NoPanic, okOr]

theorem noPanic_orRejected {α : Type} {x : CheckpointResult α} : NoPanic x.orRejected := by
  cases x <;> simp [NoPanic, CheckpointResult.orRejected]

theorem NoPanic.bind {α β : Type} {x : RetentionResult α} {f : α → RetentionResult β} (hx : NoPanic x)
    (hf : ∀ a, x = .ok a → NoPanic (f a)) : NoPanic (x >>= f) := bind_ne_error hx hf

theorem noPanic_foldlM {α β : Type} {f : β → α → RetentionResult β} (hf : ∀ b a, NoPanic (f b a)) (l : List α) (b : β) :
    NoPanic (l.foldlM f b) := foldlM_ne_error hf l b

theorem noPanic_next (loop : RecordLoop) (record : RetentionRecord) :
    NoPanic (RecordLoop.next recordSize inventory loop record) := by
  have hreferences : ∀ acc digest, NoPanic (addReference inventory acc digest) := fun acc digest =>
    noPanic_ensure.bind fun _ _ => noPanic_ok _
  unfold RecordLoop.next
  refine noPanic_ensure.bind fun _ _ => noPanic_ensure.bind fun _ _ => noPanic_orRejected.bind fun _ _ =>
    noPanic_ensure.bind fun _ _ => (noPanic_foldlM hreferences _ _).bind fun _ _ => noPanic_okOr.bind fun _ _ => ?_
  exact noPanic_ok _

theorem noPanic_addUsed {references : Table String ℕ} (used : ℕ) (entry : String × ℕ) :
    NoPanic (addUsed references shielded used entry) := by
  unfold addUsed
  split_ifs
  · exact noPanic_okOr
  · exact noPanic_ok _

/-! ## The plan -/

def RetentionProposal.kept (plan : RetentionProposal) (records : List RetentionRecord) : List RetentionRecord :=
  records.filter fun r => decide (r.checkpointId ∈ plan.retainedCheckpointIds)

/-- The records not yet pruned when the record of some sequence is looked at. -/
def RetentionProposal.leftAt (plan : RetentionProposal) (records : List RetentionRecord) (sequence : ℕ) :
    List RetentionRecord :=
  records.filter fun r => decide (r.checkpointId ∈ plan.retainedCheckpointIds ∨ sequence ≤ r.sequence)

/-- **What a plan says of its input.** -/
structure RetentionProposal.Exact (records : List RetentionRecord) (objects : List BlobReference)
    (protectedObjects : List String) (policy : RetentionPolicy) (plan : RetentionProposal) : Prop where
  split : (plan.retainedCheckpointIds ++ plan.pruneCheckpointIds).Perm (records.map (·.checkpointId))
  distinct : (plan.retainedCheckpointIds ++ plan.pruneCheckpointIds).Nodup
  newest : ∀ r ∈ records, (∀ r' ∈ records, r'.sequence ≤ r.sequence) → r.checkpointId ∈ plan.retainedCheckpointIds
  pinned : ∀ r ∈ records, r.pins ≠ [] → r.checkpointId ∈ plan.retainedCheckpointIds
  prunedObjects : ∀ digest, digest ∈ plan.pruneObjectDigests ↔
    (∃ o ∈ objects, o.sha256 = digest) ∧ digest ∉ protectedObjects ∧
      ∀ r ∈ plan.kept records, digest ∉ r.objectDigests
  prunedOnce : plan.pruneObjectDigests.Nodup
  used : plan.usedBytesAfter = bytesOf objects protectedObjects (plan.kept records)
  reason : ∀ r ∈ records, r.checkpointId ∈ plan.pruneCheckpointIds → r.pins = [] →
    plan.observedNowMs - r.recordedAtMs < policy.retentionMs →
    policy.maxGroups < (plan.leftAt records r.sequence).length ∨
      policy.maxBytes < bytesOf objects protectedObjects (plan.leftAt records r.sequence) + policy.requiredReserveBytes
  reserve : plan.canReserve = true ↔ (plan.kept records).length ≤ policy.maxGroups ∧
    bytesOf objects protectedObjects (plan.kept records) + policy.requiredReserveBytes ≤ policy.maxBytes
  observed : plan.observedNowMs = max policy.observedNowMs policy.lastObservedNowMs

def inOrder (records : List RetentionRecord) : List RetentionRecord :=
  records.insertionSort fun a b => a.sequence ≤ b.sequence

theorem inOrder_perm (records : List RetentionRecord) : (inOrder records).Perm records := List.perm_insertionSort _ _

theorem inOrder_sorted (hnd : (records.map (·.sequence)).Nodup) :
    (inOrder records).Pairwise fun a b => a.sequence < b.sequence := by
  have hle : (inOrder records).Pairwise fun a b => a.sequence ≤ b.sequence := by
    have htotal : Std.Total fun a b : RetentionRecord => a.sequence ≤ b.sequence := ⟨fun a b => Nat.le_total _ _⟩
    have htrans : IsTrans RetentionRecord fun a b => a.sequence ≤ b.sequence := ⟨fun a b c => Nat.le_trans⟩
    exact List.pairwise_insertionSort _ _
  have hne : (inOrder records).Pairwise fun a b => a.sequence ≠ b.sequence :=
    List.pairwise_map.mp (((inOrder_perm records).map _).nodup_iff.mpr hnd)
  refine (hle.and hne).imp ?_
  rintro a b ⟨hab, hne⟩
  omega

theorem start_accounts {loop : RecordLoop} {used : ℕ} (hloop : RecordLoop.Read inventory records loop)
    (hused : inventory.toList.foldlM (addUsed loop.references shielded) loop.manifestBytes = .ok used) :
    Accounts inventory shielded (inOrder records)
      { count := (inOrder records).length, used, references := loop.references } := by
  refine Accounts.perm ⟨(inOrder_perm records).length_eq, ?_, fun digest => hloop.references.getD digest⟩
    (inOrder_perm records).symm
  show used = _
  rw [used_spec hused hloop.references, hloop.manifestBytes]
  rfl

def proposalOf (inventory : Table String ℕ) (shielded : List String) (policy : RetentionPolicy) (now : ℕ)
    (decisions : List (RetentionRecord × Bool)) (st : PruneState) : RetentionProposal :=
  { retainedCheckpointIds := keptIds decisions
    pruneCheckpointIds := droppedIds decisions
    pruneObjectDigests := (inventory.toList.map (·.1)).filter fun digest =>
      decide (st.references[digest]?.getD 0 = 0 ∧ digest ∉ shielded)
    usedBytesAfter := st.used
    canReserve := decide (st.count ≤ policy.maxGroups) && policy.fits st.used
    observedNowMs := now }

structure Pruned (inventory : Table String ℕ) (shielded : List String) (policy : RetentionPolicy) (now : ℕ)
    (ordered : List RetentionRecord) (decisions : List (RetentionRecord × Bool)) (st : PruneState) : Prop where
  covers : decisions.map (·.1) = ordered
  accounts : Accounts inventory shielded (keptOf decisions) st
  reasons : ∀ before r after, decisions = before ++ (r, false) :: after → after ≠ [] ∧ r.pins = [] ∧
    (policy.expired now r = true ∨ Over policy inventory shielded (keptOf before ++ r :: after.map (·.1)))

theorem pruneLoop_pruned (policy : RetentionPolicy) (now : ℕ) {loop : RecordLoop} {used : ℕ}
    (hloop : RecordLoop.Read inventory records loop)
    (hused : inventory.toList.foldlM (addUsed loop.references shielded) loop.manifestBytes = .ok used) :
    ∃ decisions st, pruneLoop policy now inventory shielded (inOrder records)
        { count := (inOrder records).length, used, references := loop.references } = .ok (decisions, st) ∧
      Pruned inventory shielded policy now (inOrder records) decisions st := by
  have hchecked : ∀ r ∈ inOrder records, CheckedRecord inventory r := fun r hr =>
    hloop.checked r ((inOrder_perm records).mem_iff.mp hr)
  have hacc : Accounts inventory shielded ([] ++ inOrder records) _ := start_accounts hloop hused
  obtain ⟨decisions, st, hrun, hcovers, haccounts, hreasons⟩ := pruneLoop_spec hchecked hacc
  exact ⟨decisions, st, hrun, hcovers, haccounts, hreasons⟩

section Decisions

variable {st : PruneState} (hids : (records.map (·.checkpointId)).Nodup)
  (hsequences : (records.map (·.sequence)).Nodup)
  (hrun : Pruned inventory protectedObjects.reverse policy now (inOrder records) decisions st)

include hrun

theorem Pruned.decided (hr : r ∈ records) : ∃ keep, (r, keep) ∈ decisions := by
  have hmem : r ∈ decisions.map (·.1) := by
    rw [hrun.covers]
    exact (inOrder_perm records).mem_iff.mpr hr
  obtain ⟨⟨r, keep⟩, hentry, rfl⟩ := List.mem_map.mp hmem
  exact ⟨keep, hentry⟩

include hids

theorem Pruned.nodup : ((decisions.map (·.1)).map (·.checkpointId)).Nodup := by
  rw [hrun.covers]
  exact ((inOrder_perm records).map _).nodup_iff.mpr hids

theorem Pruned.dropped (hr : r ∈ records) (hout : r.checkpointId ∉ keptIds decisions) :
    ∃ before after, decisions = before ++ (r, false) :: after := by
  obtain ⟨keep, hmem⟩ := hrun.decided hr
  have hkeep : keep = false := by
    have := (mem_keptIds_iff (hrun.nodup hids) hmem).not.mp hout
    simpa using this
  subst hkeep
  exact List.append_of_mem hmem

theorem Pruned.kept_perm : (keptOf decisions).Perm
    ((proposalOf inventory protectedObjects.reverse policy now decisions st).kept records) := by
  rw [keptOf_eq_filter (hrun.nodup hids) (List.Subset.refl _), hrun.covers]
  exact (inOrder_perm records).filter _

include hsequences

theorem Pruned.leftAt_perm (hsplit : decisions = before ++ (r, keep) :: after) :
    (keptOf before ++ r :: after.map (·.1)).Perm
      ((proposalOf inventory protectedObjects.reverse policy now decisions st).leftAt records r.sequence) := by
  have hsorted : (decisions.map (·.1)).Pairwise fun a b => a.sequence < b.sequence := by
    rw [hrun.covers]
    exact inOrder_sorted hsequences
  rw [leftAt_eq (hrun.nodup hids) hsorted hsplit, hrun.covers]
  exact (inOrder_perm records).filter _

theorem Pruned.newest (hr : r ∈ records) (hnewest : ∀ r' ∈ records, r'.sequence ≤ r.sequence) :
    r.checkpointId ∈ keptIds decisions := by
  by_contra hout
  obtain ⟨before, after, hsplit⟩ := hrun.dropped hids hr hout
  obtain ⟨hafter, -⟩ := hrun.reasons before r after hsplit
  -- a record after it in the order is newer
  obtain ⟨next, rest, rfl⟩ := List.exists_cons_of_ne_nil hafter
  have hsorted : (before.map (·.1) ++ r :: next.1 :: rest.map (·.1)).Pairwise fun a b => a.sequence < b.sequence := by
    have := inOrder_sorted hsequences
    rw [← hrun.covers, hsplit, List.map_append] at this
    exact this
  have hlt : r.sequence < next.1.sequence :=
    (List.pairwise_cons.mp (List.pairwise_append.mp hsorted).2.1).1 _ List.mem_cons_self
  have hmem : next.1 ∈ records := by
    rw [← (inOrder_perm records).mem_iff, ← hrun.covers, hsplit]
    simp
  have := hnewest next.1 hmem
  omega

theorem Pruned.over (hmax : policy.maxBytes ≤ maxCheckpointStoreBytes)
    (hinventory : inventory.toList.Perm (objects.map fun o => (o.sha256, o.byteCount)))
    (hr : r ∈ records) (hout : r.checkpointId ∈ droppedIds decisions)
    (hfresh : now - r.recordedAtMs < policy.retentionMs) :
    let plan := proposalOf inventory protectedObjects.reverse policy now decisions st
    policy.maxGroups < (plan.leftAt records r.sequence).length ∨
      policy.maxBytes < bytesOf objects protectedObjects (plan.leftAt records r.sequence) + policy.requiredReserveBytes := by
  intro plan
  have hnot : r.checkpointId ∉ keptIds decisions := by
    obtain ⟨keep, hmem⟩ := hrun.decided hr
    rw [mem_keptIds_iff (hrun.nodup hids) hmem, (mem_droppedIds_iff (hrun.nodup hids) hmem).mp hout]
    decide
  obtain ⟨before, after, hsplit⟩ := hrun.dropped hids hr hnot
  have hleft := hrun.leftAt_perm hids hsequences hsplit
  obtain ⟨-, -, hexpired | hover⟩ := hrun.reasons before r after hsplit
  · unfold RetentionPolicy.expired at hexpired
    rw [decide_eq_true_eq] at hexpired
    omega
  · unfold Over at hover
    rw [hleft.length_eq, bytesLeft_perm hleft, bytesLeft_eq_bytesOf hinventory, ← Bool.not_eq_true, fits_iff hmax] at hover
    exact hover.imp_right Nat.lt_of_not_le

theorem Pruned.exact (hmax : policy.maxBytes ≤ maxCheckpointStoreBytes)
    (hnow : now = max policy.observedNowMs policy.lastObservedNowMs)
    (hinventory : inventory.toList.Perm (objects.map fun o => (o.sha256, o.byteCount))) :
    (proposalOf inventory protectedObjects.reverse policy now decisions st).Exact records objects protectedObjects
      policy := by
  have hnd := hrun.nodup hids
  have hperm := split_perm decisions
  have hkept := hrun.kept_perm hids
  have hbytes : st.used = bytesOf objects protectedObjects
      ((proposalOf inventory protectedObjects.reverse policy now decisions st).kept records) := by
    rw [hrun.accounts.used, bytesLeft_perm hkept, bytesLeft_eq_bytesOf hinventory]
  refine ⟨?_, ?_, ?_, ?_, ?_, ?_, hbytes, ?_, ?_, hnow⟩
  · rw [hrun.covers] at hperm
    exact hperm.trans ((inOrder_perm records).map _)
  · exact hperm.nodup_iff.mpr hnd
  · intro r hr hnewest
    exact hrun.newest hids hsequences hr hnewest
  · intro r hr hpins
    show r.checkpointId ∈ keptIds decisions
    by_contra hout
    obtain ⟨before, after, hsplit⟩ := hrun.dropped hids hr hout
    exact hpins (hrun.reasons before r after hsplit).2.1
  · intro digest
    show digest ∈ List.filter _ _ ↔ _
    have hfree : st.references[digest]?.getD 0 = 0 ↔
        ∀ r ∈ (proposalOf inventory protectedObjects.reverse policy now decisions st).kept records,
          digest ∉ r.objectDigests := by
      have hholders : (holdersOf (keptOf decisions)).Perm
          (holdersOf ((proposalOf inventory protectedObjects.reverse policy now decisions st).kept records)) := hkept.map _
      rw [hrun.accounts.references, refs_perm hholders, ← not_iff_not]
      push Not
      exact refs_holdersOf_ne_zero_iff
    rw [List.mem_filter, decide_eq_true_eq, hfree, List.mem_reverse, (hinventory.map _).mem_iff, List.map_map, List.mem_map]
    exact and_congr_right fun _ => and_comm
  · exact (Table.nodup_toList_fst inventory).filter _
  · intro r hr hout _ hfresh
    exact hrun.over hids hsequences hmax hinventory hr hout hfresh
  · show (decide (st.count ≤ policy.maxGroups) && policy.fits st.used) = true ↔ _
    rw [Bool.and_eq_true, decide_eq_true_eq, fits_iff hmax, hbytes, hrun.accounts.count, hkept.length_eq]

end Decisions

/-- **Every plan is exact, and no input makes one panic.** -/
theorem retention_plan_exact (recordSize : RetentionRecord → ℕ) (records : List RetentionRecord)
    (objects : List BlobReference) (protectedObjects : List String) (policy : RetentionPolicy) :
    planCheckpointRetention recordSize records objects protectedObjects policy ≠ .error .panicked ∧
      ∀ plan, planCheckpointRetention recordSize records objects protectedObjects policy = .ok plan →
        plan.Exact records objects protectedObjects policy := by
  constructor
  · simp only [planCheckpointRetention]
    refine noPanic_ensure.bind fun _ _ => noPanic_ensure.bind fun _ _ => NoPanic.bind ?_ fun inventory _ =>
      NoPanic.bind ?_ fun shielded _ => (noPanic_foldlM noPanic_next _ _).bind fun loop hloop =>
      (noPanic_foldlM noPanic_addUsed _ _).bind fun used hused => ?_
    · exact noPanic_foldlM (fun _ _ => noPanic_orRejected.bind fun _ _ => noPanic_ensure.bind fun _ _ => noPanic_ok _) _ _
    · exact noPanic_foldlM (fun _ _ => noPanic_ensure.bind fun _ _ => noPanic_ok _) _ _
    · obtain ⟨decisions, st, hrun, -⟩ := pruneLoop_pruned policy (max policy.observedNowMs policy.lastObservedNowMs)
        (records_spec hloop) hused
      exact NoPanic.bind (by rw [← inOrder, hrun]; exact noPanic_ok _) fun _ _ => noPanic_ok _
  · intro plan hplan
    simp only [planCheckpointRetention, bind_eq_ok, ensure_eq_ok] at hplan
    obtain ⟨_, _, _, ⟨_, _, _, hmax, _⟩, inventory, hinventory, shielded, hshielded, loop, hloop, used, hused, out, hrun,
      hplan⟩ := hplan
    cases hplan
    rw [shielded_spec hshielded] at hrun hused ⊢
    have hread := records_spec hloop
    obtain ⟨decisions, st, hdecided, hpruned⟩ := pruneLoop_pruned policy
      (max policy.observedNowMs policy.lastObservedNowMs) hread hused
    obtain rfl : (decisions, st) = out := Except.ok.inj (hdecided.symm.trans hrun)
    exact hpruned.exact hread.distinctIds hread.distinctSequences hmax rfl (inventory_spec hinventory)

def digitDigest (digit : Char) : String := String.ofList (List.replicate 64 digit)

/-- Three checkpoints; the oldest shares an object with the pinned one. -/
def turnRecords : List RetentionRecord :=
  [{ checkpointId := "turn-3", sequence := 3, recordedAtMs := 55, manifestBytes := 10, objectDigests := [digitDigest 'c'],
     pins := [] },
   { checkpointId := "turn-1", sequence := 1, recordedAtMs := 50, manifestBytes := 10,
     objectDigests := [digitDigest 'a', digitDigest 'b'], pins := [] },
   { checkpointId := "turn-2", sequence := 2, recordedAtMs := 1, manifestBytes := 10, objectDigests := [digitDigest 'b'],
     pins := [.safety] }]

def turnObjects : List BlobReference :=
  [⟨digitDigest 'a', 5⟩, ⟨digitDigest 'b', 7⟩, ⟨digitDigest 'c', 9⟩, ⟨digitDigest 'd', 11⟩]

def twoGroups : RetentionPolicy :=
  { maxGroups := 2, maxBytes := 100, retentionMs := 50, observedNowMs := 60, lastObservedNowMs := 40
    requiredReserveBytes := 1 }

theorem oldest_turn_pruned :
    ∃ plan, planCheckpointRetention (fun _ => 100) turnRecords turnObjects [digitDigest 'd'] twoGroups = .ok plan ∧
      plan.pruneCheckpointIds = ["turn-1"] ∧ plan.pruneObjectDigests = [digitDigest 'a'] ∧ plan.usedBytesAfter = 47 ∧
      plan.Exact turnRecords turnObjects [digitDigest 'd'] twoGroups := by
  have hplan : planCheckpointRetention (fun _ => 100) turnRecords turnObjects [digitDigest 'd'] twoGroups =
      .ok { retainedCheckpointIds := ["turn-2", "turn-3"], pruneCheckpointIds := ["turn-1"]
            pruneObjectDigests := [digitDigest 'a'], usedBytesAfter := 47, canReserve := true, observedNowMs := 60 } := by
    decide +kernel
  exact ⟨_, hplan, rfl, rfl, rfl, (retention_plan_exact _ _ _ _ _).2 _ hplan⟩

end AnimaCore.FilesystemCheckpoints
