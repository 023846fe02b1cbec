import AnimaCore.HistoryRead

/-!
# AnimaCore.HistoryRead.Neighbourhood — a window is the neighbourhood of its anchor

* `Exact`: a store whose pages are the nearest rows that are not hidden.  `memory_exact`: the store of ephemeral mode is exact.
* `Visible`: the messages of a conversation that an agent may read, hot or stored.
* `Filed`: a table that has messages under their ids.
-/

namespace AnimaCore.HistoryRead

open Lib
open RunDelta (Message MessageRole)
open HotTail (SessionRecord MessageOrder messageOrder hiddenMessageIds)

/-! ## Stores -/

/-- The rows that a page before an order may have. -/
def InPage (query : MessagePageQuery) (row : HistoryMessage) : Prop :=
  row.agentId = query.agentId ∧ row.sessionId = query.sessionId ∧ (query.includeHidden = true ∨ row.hidden = false) ∧
    ∀ before, query.before = some before → (compare row.order before).isLT = true

/-- The rows that a page after an order may have. -/
def InPageAfter (query : MessageAfterQuery) (row : HistoryMessage) : Prop :=
  row.agentId = query.agentId ∧ row.sessionId = query.sessionId ∧ (query.includeHidden = true ∨ row.hidden = false) ∧
    (compare row.order query.after).isGT = true

/-- The store has these rows, and its pages are the nearest of them. -/
structure Exact (store : HistoryStore) (rows : List HistoryMessage) : Prop where
  get : ∀ agentId sessionId messageId row, store.getMessage agentId sessionId messageId = some (some row) → row ∈ rows
  page : ∀ query found, store.pageMessages query = some found →
    Nearest newestRowFirst query.limit (fun row => row ∈ rows ∧ InPage query row) found
  pageAfter : ∀ query found, store.pageMessagesAfter query = some found →
    Nearest oldestRowFirst query.limit (fun row => row ∈ rows ∧ InPageAfter query row) found

instance : Std.TransCmp newestFirst := inferInstanceAs (Std.TransCmp fun a b : Message => compareOn messageOrder b a)

instance : Std.TransCmp oldestFirst := inferInstanceAs (Std.TransCmp (compareOn messageOrder))

instance : Std.TransCmp newestRowFirst :=
  inferInstanceAs (Std.TransCmp fun a b : HistoryMessage => compareOn HistoryMessage.order b a)

instance : Std.TransCmp oldestRowFirst := inferInstanceAs (Std.TransCmp (compareOn HistoryMessage.order))

theorem id_of_order_eq {m m' : Message} (h : compare (messageOrder m) (messageOrder m') = .eq) : m.id = m'.id := by
  have heq : messageOrder m = messageOrder m' := Std.LawfulEqOrd.eq_of_compare h
  exact congrArg (fun order : MessageOrder => order.2.2) heq

/-! ## The store of ephemeral mode -/

namespace MemoryHistoryStore

variable {s : MemoryHistoryStore}

theorem pageable_iff {query : MessagePageQuery} {row : HistoryMessage} : pageable query row = true ↔ InPage query row := by
  unfold pageable InPage
  rw [Bool.and_eq_true, Bool.and_eq_true, Bool.and_eq_true, beq_iff_eq, beq_iff_eq, Bool.or_eq_true, Bool.not_eq_true',
    Option.all_eq_true, and_assoc, and_assoc]

theorem skipped_iff {query : MessageAfterQuery} {row : HistoryMessage} : skipped query row = false ↔ InPageAfter query row := by
  unfold skipped InPageAfter
  rw [Bool.or_eq_false_iff, Bool.or_eq_false_iff, Bool.or_eq_false_iff, bne_eq_false_iff_eq, bne_eq_false_iff_eq,
    Bool.and_eq_false_iff, Bool.not_eq_false', and_assoc, and_assoc]
  refine and_congr_right fun _ => and_congr_right fun _ => and_congr_right fun _ => ?_
  cases compare row.order query.after <;> decide

def Keyed (s : MemoryHistoryStore) : Prop := ∀ (id : String) (row : HistoryMessage), s.messages[id]? = some row → row.message.id = id

theorem eq_of_compare (hkeyed : s.Keyed) {a b : HistoryMessage} (ha : a ∈ s.messages.vals) (hb : b ∈ s.messages.vals)
    (h : compare a.order b.order = .eq) : a = b := by
  obtain ⟨k, hk⟩ := Table.mem_vals.mp ha
  obtain ⟨k', hk'⟩ := Table.mem_vals.mp hb
  have hid := id_of_order_eq h
  rw [hkeyed k a hk, hkeyed k' b hk'] at hid
  rw [hid, hk'] at hk
  exact (Option.some.inj hk).symm

theorem nodup_vals (hkeyed : s.Keyed) : s.messages.vals.Nodup :=
  (Table.nodup_key_vals fun k v h => hkeyed k v h : (s.messages.vals.map fun row => row.message.id).Nodup).of_map

theorem nearest_selectRow {query : MessageAfterQuery} {rows : List HistoryMessage} (hnd : rows.Nodup)
    (heq : ∀ a ∈ rows, ∀ b ∈ rows, compare a.order b.order = .eq → a = b) :
    Nearest oldestRowFirst query.limit (fun row => row ∈ rows ∧ InPageAfter query row) (rows.foldl (selectRow query) []) := by
  induction rows using List.reverseRecOn with
  | nil => exact nearest_nil.congr (by simp)
  | append_singleton rows row ih =>
    rw [List.nodup_append] at hnd
    have hseen := ih hnd.1 fun a ha b hb => heq a (List.mem_append_left _ ha) b (List.mem_append_left _ hb)
    rw [List.foldl_append, List.foldl_cons, List.foldl_nil]
    generalize rows.foldl (selectRow query) [] = selected at hseen ⊢
    unfold selectRow
    by_cases hskip : skipped query row = true
    · rw [if_pos hskip]
      refine hseen.congr fun a => and_congr_left fun ha => ?_
      rw [List.mem_append, List.mem_singleton]
      constructor
      · exact Or.inl
      · rintro (h | rfl)
        · exact h
        · rw [skipped_iff.mpr ha] at hskip
          cases hskip
    · rw [if_neg hskip]
      have hin : InPageAfter query row := skipped_iff.mp (Bool.eq_false_iff.mpr hskip)
      have hnext := hseen.place (a := row) (by
        rintro b ⟨hb, -⟩ hsame
        have hbrow := heq b (List.mem_append_left _ hb) row (List.mem_append_right _ (List.mem_singleton_self row)) hsame
        exact hnd.2.2 b hb row (List.mem_singleton_self row) hbrow)
      have hset : ∀ a, ((a ∈ rows ∧ InPageAfter query a) ∨ a = row) ↔ (a ∈ rows ++ [row] ∧ InPageAfter query a) := by
        intro a
        rw [List.mem_append, List.mem_singleton]
        constructor
        · rintro (⟨h, h'⟩ | rfl)
          · exact ⟨Or.inl h, h'⟩
          · exact ⟨Or.inr rfl, hin⟩
        · rintro ⟨h | h, h'⟩
          · exact Or.inl ⟨h, h'⟩
          · exact Or.inr h
      have hplaced := hnext.congr hset
      split_ifs with hfull
      · -- a row that comes after a full page has no place in it
        have hcut : (place oldestRowFirst row selected).take query.limit = selected := by
          have hall : (selected.takeWhile fun existing => (oldestRowFirst existing row).isLT) = selected := by
            have hle : (selected.takeWhile fun existing => (oldestRowFirst existing row).isLT).length ≤ selected.length :=
              (List.takeWhile_sublist _).length_le
            refine (List.takeWhile_sublist _).eq_of_length_le ?_
            have hshort := hseen.length_le
            omega
          unfold place
          rw [hall, List.take_append_of_le_length]
          · exact List.take_of_length_le hseen.length_le
          · rw [hall] at hfull
            exact hfull
        rw [hcut] at hplaced
        exact hplaced
      · exact hplaced

theorem memory_exact (hkeyed : s.Keyed) : Exact s.store s.messages.vals where
  get := by
    intro agentId sessionId messageId row h
    have hfound : (s.messages[messageId]?.filter fun row => row.agentId == agentId && row.sessionId == sessionId) = some row :=
      Option.some.inj h
    exact Table.mem_vals.mpr ⟨messageId, (Option.filter_eq_some_iff.mp hfound).1⟩
  page := by
    intro query found h
    obtain rfl : s.pageMessages query = found := Option.some.inj h
    unfold pageMessages
    have hsorted : ((s.messages.vals.filter (pageable query)).mergeSort fun a b => (newestRowFirst a b).isLE).Pairwise
        fun a b => (newestRowFirst a b).isLT = true := by
      refine sorted_mergeSort ((nodup_vals hkeyed).filter (pageable query)) ?_
      intro a ha b hb hsame
      exact (eq_of_compare hkeyed (List.mem_filter.mp hb).1 (List.mem_filter.mp ha).1 hsame).symm
    refine (nearest_take hsorted query.limit).congr fun row => ?_
    rw [List.mem_mergeSort, List.mem_filter, pageable_iff]
  pageAfter := by
    intro query found h
    have h : s.pageMessagesAfter query = some found := h
    unfold pageMessagesAfter at h
    split_ifs at h with hvalid hlimit
    · cases h
      rw [hlimit]
      exact ⟨.nil, Nat.le_refl 0, by simp, fun _ _ => Or.inr ⟨rfl, by simp⟩⟩
    · cases h
      exact nearest_selectRow (nodup_vals hkeyed) fun a ha b hb => eq_of_compare hkeyed ha hb

end MemoryHistoryStore

/-! ## Messages under their ids -/

/-- A table that has these messages, each under its id. -/
def Filed (t : Table String Message) (M : Message → Prop) : Prop := ∀ (k : String) (m : Message), t[k]? = some m ↔ m.id = k ∧ M m

section

variable {t : Table String Message} {M M' : Message → Prop}

theorem filed_empty : Filed ∅ fun _ => False := by
  intro k m
  simp

theorem Filed.congr (h : Filed t M) (hM : ∀ m, M m ↔ M' m) : Filed t M' := by
  intro k m
  rw [h k m, hM m]

theorem Filed.mem_vals (h : Filed t M) {m : Message} : m ∈ t.vals ↔ M m := by
  rw [Table.mem_vals]
  constructor
  · rintro ⟨k, hk⟩
    exact ((h k m).mp hk).2
  · intro hm
    exact ⟨m.id, (h m.id m).mpr ⟨rfl, hm⟩⟩

theorem Filed.nodup_vals (h : Filed t M) : t.vals.Nodup := by
  have hids : (t.vals.map fun m : Message => m.id).Nodup := Table.nodup_key_vals fun k m hk => ((h k m).mp hk).1
  exact hids.of_map

theorem Filed.insert (h : Filed t M) {m : Message} (hid : ∀ m', M m' → m'.id = m.id → m' = m) :
    Filed (t.insert m.id m) fun m' => M m' ∨ m' = m := by
  intro k m'
  rw [Table.getElem?_insert_eq]
  by_cases hk : m.id = k
  · rw [if_pos hk]
    constructor
    · intro heq
      obtain rfl := Option.some.inj heq
      exact ⟨hk, Or.inr rfl⟩
    · rintro ⟨hk', hm' | rfl⟩
      · rw [hid m' hm' (hk'.trans hk.symm)]
      · rfl
  · rw [if_neg hk, h k m']
    constructor
    · rintro ⟨hk', hm'⟩
      exact ⟨hk', Or.inl hm'⟩
    · rintro ⟨hk', hm' | rfl⟩
      · exact ⟨hk', hm'⟩
      · exact absurd hk' hk

theorem Filed.foldl {ι : Type} (of : ι → Message) {l : List ι} (h : Filed t M)
    (hid : ∀ m m', (M m ∨ ∃ i ∈ l, of i = m) → (∃ i ∈ l, of i = m') → m.id = m'.id → m = m') :
    Filed (l.foldl (fun t i => t.insert (of i).id (of i)) t) fun m => M m ∨ ∃ i ∈ l, of i = m := by
  induction l generalizing t M with
  | nil => exact h.congr (by simp)
  | cons i l ih =>
    rw [List.foldl_cons]
    have hfirst : Filed (t.insert (of i).id (of i)) fun m => M m ∨ m = of i :=
      h.insert fun m' hm' heq => hid m' (of i) (Or.inl hm') ⟨i, List.mem_cons_self .., rfl⟩ heq
    have hmem : ∀ m, ((M m ∨ m = of i) ∨ ∃ j ∈ l, of j = m) ↔ (M m ∨ ∃ j ∈ i :: l, of j = m) := by
      intro m
      rw [List.exists_mem_cons_iff, or_assoc, eq_comm (a := m)]
    refine (ih hfirst ?_).congr hmem
    rintro m m' hm ⟨j, hj, rfl⟩ heq
    exact hid m (of j) ((hmem m).mp hm) ⟨j, List.mem_cons_of_mem _ hj, rfl⟩ heq

theorem Filed.filter (h : Filed t M) {p : String → Bool} (hp : ∀ m, M m → p m.id = true) :
    Filed (t.filter fun id _ => p id) M := by
  intro k m
  rw [Std.ExtTreeMap.getElem?_filter']
  rcases hk : t[k]? with _ | found
  · rw [Option.filter_none]
    constructor
    · intro hnone
      cases hnone
    · intro hm
      rw [(h k m).mpr hm] at hk
      cases hk
  · obtain ⟨hid, hM⟩ := (h k found).mp hk
    have hkeep : p k = true := hid ▸ hp found hM
    rw [Option.filter_some, if_pos hkeep, ← hk, h k m]

theorem Filed.mem_side (h : Filed t M) (q : Message → Bool) {cmp : Message → Message → Ordering} {m : Message} :
    m ∈ (t.vals.filter q).mergeSort (fun a b => (cmp a b).isLE) ↔ M m ∧ q m = true := by
  rw [List.mem_mergeSort, List.mem_filter, h.mem_vals]

theorem Filed.sorted_side (h : Filed t M) (q : Message → Bool) {cmp : Message → Message → Ordering} [Std.TransCmp cmp]
    (hcmp : ∀ m m', cmp m m' = .eq → m.id = m'.id) :
    ((t.vals.filter q).mergeSort fun a b => (cmp a b).isLE).Pairwise fun a b => (cmp a b).isLT = true := by
  refine sorted_mergeSort (h.nodup_vals.filter q) ?_
  intro m hm m' hm' hsame
  have hid := hcmp m m' hsame
  have hM := h.mem_vals.mp (List.mem_filter.mp hm).1
  have hM' := h.mem_vals.mp (List.mem_filter.mp hm').1
  have hfound := (h m.id m).mpr ⟨rfl, hM⟩
  rw [(h m.id m').mpr ⟨hid.symm, hM'⟩] at hfound
  exact (Option.some.inj hfound).symm

end

/-! ## The steps of a read -/

section

variable {agent : String} {record : SessionRecord} {hidden hotIds : List String} {older : Bool} {order : MessageOrder}

/-- A page with nothing left out: every row may be read and is on its side, and those that are not hot are put under their ids. -/
theorem foldlM_takeRow {rows : List HistoryMessage} {acc next : Table String Message × Bool}
    (h : rows.foldlM (takeRow agent record hidden older order hotIds) acc = .ok next) (hkept : next.2 = false) :
    acc.2 = false ∧ (∀ row ∈ rows, rowAllowed row agent record hidden = true ∧ misplaced older order row = false) ∧
      next.1 = (rows.filter fun row => !hotIds.contains row.message.id).foldl
        (fun t row => t.insert row.message.id row.message) acc.1 := by
  induction rows generalizing acc with
  | nil =>
    cases h
    exact ⟨hkept, by simp, rfl⟩
  | cons row rows ih =>
    rw [List.foldlM_cons] at h
    obtain ⟨mid, hrow, hrest⟩ := bind_eq_ok.mp h
    obtain ⟨hmid, hall, hnext⟩ := ih hrest
    unfold takeRow at hrow
    by_cases hallowed : rowAllowed row agent record hidden = false
    · rw [if_pos hallowed] at hrow
      cases hrow
      cases hmid
    · rw [if_neg hallowed] at hrow
      have hallowed : rowAllowed row agent record hidden = true := by simpa using hallowed
      by_cases hplace : misplaced older order row = true
      · rw [if_pos hplace] at hrow
        cases hrow
      · rw [if_neg hplace] at hrow
        have hplace : misplaced older order row = false := by simpa using hplace
        by_cases hhot : hotIds.contains row.message.id = true
        · rw [if_pos hhot] at hrow
          cases hrow
          refine ⟨hmid, List.forall_mem_cons.mpr ⟨⟨hallowed, hplace⟩, hall⟩, ?_⟩
          rw [List.filter_cons_of_neg (by simpa using hhot), hnext]
        · rw [if_neg hhot] at hrow
          cases hrow
          refine ⟨hmid, List.forall_mem_cons.mpr ⟨⟨hallowed, hplace⟩, hall⟩, ?_⟩
          rw [List.filter_cons_of_pos (by simpa using hhot), List.foldl_cons, hnext]

theorem takePage_kept {rows : List HistoryMessage} {limit : ℕ} {merged : Table String Message}
    {next : Table String Message × Bool} (h : takePage agent record hidden older order hotIds limit merged rows = .ok next)
    (hkept : next.2 = false) :
    (∀ row ∈ rows, rowAllowed row agent record hidden = true ∧ misplaced older order row = false) ∧
      next.1 = (rows.filter fun row => !hotIds.contains row.message.id).foldl
        (fun t row => t.insert row.message.id row.message) merged := by
  unfold takePage at h
  obtain ⟨-, -, hrows⟩ := bind_eq_ok.mp h
  exact (foldlM_takeRow hrows hkept).2

end

section

variable {store : HistoryStore} {rows : List HistoryMessage} {state : DaemonState} {agent : String} {record : SessionRecord}
  {request : WindowRequest} {anchor m m' : Message}

/-- The messages of a conversation that are hidden. -/
def hiddenOf (state : DaemonState) (agent : String) (record : SessionRecord) : List String :=
  hiddenMessageIds (hotMessages state agent record)

/-- A copy of a message of a conversation, hot or stored. -/
def Copy (state : DaemonState) (rows : List HistoryMessage) (agent : String) (record : SessionRecord) (m : Message) : Prop :=
  m ∈ hotMessages state agent record ∨ ∃ row ∈ rows, row.agentId = agent ∧ row.sessionId = record.id ∧ row.message = m

/-- A message of a conversation that the agent may read, hot or stored. -/
def Visible (state : DaemonState) (rows : List HistoryMessage) (agent : String) (record : SessionRecord) (m : Message) : Prop :=
  (m ∈ hotMessages state agent record ∧ hotAllowed m agent (hiddenOf state agent record) = true) ∨
    ∃ row ∈ rows, rowAllowed row agent record (hiddenOf state agent record) = true ∧ row.message = m

theorem rowAllowed_iff {row : HistoryMessage} {hidden : List String} : rowAllowed row agent record hidden = true ↔
    row.agentId = agent ∧ row.sessionId = record.id ∧ row.message.roomId = roomOf record ∧ row.hidden = false ∧
      hotAllowed row.message agent hidden = true := by
  unfold rowAllowed hotAllowed
  simp only [Bool.and_eq_true, beq_iff_eq, Bool.not_eq_true', bne_iff_ne]
  constructor
  · rintro ⟨⟨⟨⟨⟨⟨⟨h1, h2⟩, h3⟩, h4⟩, h5⟩, h6⟩, h7⟩, h8⟩
    exact ⟨h1, h2, h4, h6, ⟨⟨h3, h5⟩, h7⟩, h8⟩
  · rintro ⟨h1, h2, h4, h6, ⟨⟨h3, h5⟩, h7⟩, h8⟩
    exact ⟨⟨⟨⟨⟨⟨⟨h1, h2⟩, h3⟩, h4⟩, h5⟩, h6⟩, h7⟩, h8⟩

theorem Visible.copy (h : Visible state rows agent record m) : Copy state rows agent record m := by
  rcases h with ⟨hhot, -⟩ | ⟨row, hrow, hallowed, rfl⟩
  · exact Or.inl hhot
  · obtain ⟨hagent, hsession, -⟩ := rowAllowed_iff.mp hallowed
    exact Or.inr ⟨row, hrow, hagent, hsession, rfl⟩

theorem Visible.shown (h : Visible state rows agent record m) : (hiddenOf state agent record).contains m.id = false := by
  have hallowed : hotAllowed m agent (hiddenOf state agent record) = true := by
    rcases h with ⟨-, h⟩ | ⟨row, -, h, rfl⟩
    · exact h
    · exact (rowAllowed_iff.mp h).2.2.2.2
  unfold hotAllowed at hallowed
  simp only [Bool.and_eq_true, Bool.not_eq_true'] at hallowed
  exact hallowed.1.2

theorem findAnchor_visible (hexact : Exact store rows) (hvalid : validId request.anchorMessageId = true)
    (h : findAnchor store agent record (hiddenOf state agent record) (hotMessages state agent record) request = .ok (some anchor)) :
    anchor.id = request.anchorMessageId ∧ Visible state rows agent record anchor := by
  unfold findAnchor at h
  rcases hfind : (hotMessages state agent record).find? fun message => message.id == request.anchorMessageId with _ | found
  · simp only [hfind] at h
    obtain ⟨stored, hstored, h⟩ := bind_eq_ok.mp h
    rw [okOr_eq_ok] at hstored
    rcases stored with _ | row
    · cases h
    · obtain ⟨u, hensure, h⟩ := bind_eq_ok.mp h
      have hid := (ensure_eq_ok.mp hensure).2.2.2.2.1
      by_cases hallowed : rowAllowed row agent record (hiddenOf state agent record) = true
      · rw [if_pos hallowed] at h
        cases h
        exact ⟨hid, Or.inr ⟨row, hexact.get _ _ _ row hstored, hallowed, rfl⟩⟩
      · rw [if_neg hallowed] at h
        cases h
  · simp only [hfind, Except.ok.injEq, Option.ite_none_right_eq_some, Option.some.injEq] at h
    obtain ⟨⟨hrole, hshown, hagent⟩, rfl⟩ := h
    have hid : (found.id == request.anchorMessageId) = true :=
      @List.find?_some _ (fun message : Message => message.id == request.anchorMessageId) _ _ hfind
    rw [beq_iff_eq] at hid
    refine ⟨hid, Or.inl ⟨List.mem_of_find?_eq_some hfind, ?_⟩⟩
    unfold hotAllowed
    rw [hagent, hshown, hid, hvalid, bne_iff_ne.mpr hrole, beq_self_eq_true]
    rfl

def CopiesAgree (state : DaemonState) (rows : List HistoryMessage) (agent : String) (record : SessionRecord) : Prop :=
  ∀ m m', Copy state rows agent record m → Copy state rows agent record m' → m.id = m'.id → m = m'

/-- What is gathered from two pages and the hot messages. -/
def Gathered (state : DaemonState) (agent : String) (record : SessionRecord) (page : List HistoryMessage) (m : Message) : Prop :=
  (∃ row ∈ page, row.message = m) ∨
    (m ∈ hotMessages state agent record ∧ hotAllowed m agent (hiddenOf state agent record) = true)

variable {page before after : List HistoryMessage}

theorem Gathered.visible (hpage : ∀ row ∈ page, row ∈ rows ∧ rowAllowed row agent record (hiddenOf state agent record) = true)
    (h : Gathered state agent record page m) : Visible state rows agent record m := by
  rcases h with ⟨row, hrow, rfl⟩ | h
  · exact Or.inr ⟨row, (hpage row hrow).1, (hpage row hrow).2, rfl⟩
  · exact Or.inl h

theorem filed_merged (hcopies : CopiesAgree state rows agent record)
    (hbefore : ∀ row ∈ before, row ∈ rows ∧ rowAllowed row agent record (hiddenOf state agent record) = true)
    (hafter : ∀ row ∈ after, row ∈ rows ∧ rowAllowed row agent record (hiddenOf state agent record) = true) :
    Filed (mergeHot agent (hiddenOf state agent record)
      ((after.filter fun row => !((hotMessages state agent record).map (·.id)).contains row.message.id).foldl
        (fun t row => t.insert row.message.id row.message)
        ((before.filter fun row => !((hotMessages state agent record).map (·.id)).contains row.message.id).foldl
          (fun t row => t.insert row.message.id row.message) ∅))
      (hotMessages state agent record)) (Gathered state agent record (before ++ after)) := by
  have hpage : ∀ row ∈ before ++ after, row ∈ rows ∧ rowAllowed row agent record (hiddenOf state agent record) = true := by
    intro row hrow
    rcases List.mem_append.mp hrow with h | h
    · exact hbefore row h
    · exact hafter row h
  have hstored : ∀ row ∈ before ++ after, Copy state rows agent record row.message := by
    intro row hrow
    obtain ⟨hin, hallowed⟩ := hpage row hrow
    obtain ⟨hagent, hsession, -⟩ := rowAllowed_iff.mp hallowed
    exact Or.inr ⟨row, hin, hagent, hsession, rfl⟩
  have hleft : ∀ row ∈ before.filter (fun row => !((hotMessages state agent record).map (·.id)).contains row.message.id),
      row ∈ before ++ after := fun row h => List.mem_append_left _ (List.mem_filter.mp h).1
  have hright : ∀ row ∈ after.filter (fun row => !((hotMessages state agent record).map (·.id)).contains row.message.id),
      row ∈ before ++ after := fun row h => List.mem_append_right _ (List.mem_filter.mp h).1
  have hfirst := filed_empty.foldl HistoryMessage.message
    (l := before.filter fun row => !((hotMessages state agent record).map (·.id)).contains row.message.id) (by
      rintro m m' (hfalse | ⟨row, hrow, rfl⟩) ⟨row', hrow', rfl⟩ hid
      · exact hfalse.elim
      · exact hcopies _ _ (hstored row (hleft row hrow)) (hstored row' (hleft row' hrow')) hid)
  have hsecond := hfirst.foldl HistoryMessage.message
    (l := after.filter fun row => !((hotMessages state agent record).map (·.id)).contains row.message.id) (by
      rintro m m' ((hfalse | ⟨row, hrow, rfl⟩) | ⟨row, hrow, rfl⟩) ⟨row', hrow', rfl⟩ hid
      · exact hfalse.elim
      · exact hcopies _ _ (hstored row (hleft row hrow)) (hstored row' (hright row' hrow')) hid
      · exact hcopies _ _ (hstored row (hright row hrow)) (hstored row' (hright row' hrow')) hid)
  have hhot : ∀ x ∈ (hotMessages state agent record).filter (fun x => hotAllowed x agent (hiddenOf state agent record)),
      Copy state rows agent record x := fun x h => Or.inl (List.mem_filter.mp h).1
  have hthird := hsecond.foldl (fun x : Message => x)
    (l := (hotMessages state agent record).filter fun x => hotAllowed x agent (hiddenOf state agent record)) (by
      rintro m m' (((hfalse | ⟨row, hrow, rfl⟩) | ⟨row, hrow, rfl⟩) | ⟨x, hx, rfl⟩) ⟨x', hx', rfl⟩ hid
      · exact hfalse.elim
      · exact hcopies _ _ (hstored row (hleft row hrow)) (hhot x' hx') hid
      · exact hcopies _ _ (hstored row (hright row hrow)) (hhot x' hx') hid
      · exact hcopies _ _ (hhot x hx) (hhot x' hx') hid)
  refine hthird.congr fun m => ?_
  constructor
  · rintro (((hfalse | ⟨row, hrow, rfl⟩) | ⟨row, hrow, rfl⟩) | ⟨x, hx, rfl⟩)
    · exact hfalse.elim
    · exact Or.inl ⟨row, hleft row hrow, rfl⟩
    · exact Or.inl ⟨row, hright row hrow, rfl⟩
    · exact Or.inr (List.mem_filter.mp hx)
  · rintro (⟨row, hrow, rfl⟩ | h)
    · by_cases hin : ((hotMessages state agent record).map (·.id)).contains row.message.id = true
      · -- the hot copy of the row is there in its place
        rw [List.contains_iff_mem, List.mem_map] at hin
        obtain ⟨x, hx, hid⟩ := hin
        obtain rfl : x = row.message := hcopies _ _ (Or.inl hx) (hstored row hrow) hid
        exact Or.inr ⟨row.message, List.mem_filter.mpr ⟨hx, (rowAllowed_iff.mp (hpage row hrow).2).2.2.2.2⟩, rfl⟩
      · have hnot : (!((hotMessages state agent record).map (·.id)).contains row.message.id) = true := by simpa using hin
        rcases List.mem_append.mp hrow with h | h
        · exact Or.inl (Or.inl (Or.inr ⟨row, List.mem_filter.mpr ⟨h, hnot⟩, rfl⟩))
        · exact Or.inl (Or.inr ⟨row, List.mem_filter.mpr ⟨h, hnot⟩, rfl⟩)
    · exact Or.inr ⟨m, List.mem_filter.mpr h, rfl⟩

theorem filed_stillAllowed {merged kept : Table String Message} {G : Message → Prop} (h : Filed merged G)
    (hG : ∀ m, G m → Visible state rows agent record m) (hcopies : CopiesAgree state rows agent record)
    (hanchor : Visible state rows agent record anchor)
    (hkept : stillAllowed state agent record anchor merged = some kept) : Filed kept fun m => G m ∨ m = anchor := by
  unfold stillAllowed at hkept
  dsimp only at hkept
  split at hkept
  swap
  · cases hkept
  split at hkept
  · cases hkept
  obtain rfl := Option.some.inj hkept
  have hfilter : Filed (merged.filter fun id _ => !(hiddenMessageIds (hotMessages state agent record)).contains id) G := by
    have hkeep : ∀ m, G m → (!(hiddenOf state agent record).contains m.id) = true := by
      intro m hm
      rw [(hG m hm).shown]
      rfl
    exact @Filed.filter merged G h (fun id => !(hiddenMessageIds (hotMessages state agent record)).contains id) hkeep
  exact hfilter.insert fun m' hm' hid => hcopies m' anchor (hG m' hm').copy hanchor.copy hid

theorem windowAround_spec {window : ConversationWindow} (hexact : Exact store rows) (hcopies : CopiesAgree state rows agent record)
    (hanchor : Visible state rows agent record anchor)
    (h : windowAround store state agent record request (hotMessages state agent record) anchor = .ok (some window))
    (homitted : window.omitted = false) :
    ∃ before after kept, store.pageMessages ⟨agent, record.id, some (messageOrder anchor), request.beforeCount + 1, false⟩ = some before ∧
      store.pageMessagesAfter ⟨agent, record.id, messageOrder anchor, request.afterCount + 1, false⟩ = some after ∧
      (∀ row ∈ before, row ∈ rows ∧ rowAllowed row agent record (hiddenOf state agent record) = true ∧
        misplaced true (messageOrder anchor) row = false) ∧
      (∀ row ∈ after, row ∈ rows ∧ rowAllowed row agent record (hiddenOf state agent record) = true ∧
        misplaced false (messageOrder anchor) row = false) ∧
      Filed kept (fun m => Gathered state agent record (before ++ after) m ∨ m = anchor) ∧
      window = cutWindow record request anchor kept (decide (request.beforeCount + 1 ≤ before.length))
        (decide (request.afterCount + 1 ≤ after.length)) false false := by
  unfold windowAround at h
  obtain ⟨before, hbefore, h⟩ := bind_eq_ok.mp h
  obtain ⟨after, hafter, h⟩ := bind_eq_ok.mp h
  obtain ⟨first, hfirst, h⟩ := bind_eq_ok.mp h
  obtain ⟨second, hsecond, h⟩ := bind_eq_ok.mp h
  rw [okOr_eq_ok] at hbefore hafter
  obtain ⟨kept, hkept, hwindow⟩ := Option.map_eq_some_iff.mp (Except.ok.inj h)
  have hflags : first.2 = false ∧ second.2 = false := by
    rw [← hwindow] at homitted
    exact Bool.or_eq_false_iff.mp homitted
  obtain ⟨hrows, hmerged⟩ := takePage_kept hfirst hflags.1
  obtain ⟨hrows', hmerged'⟩ := takePage_kept hsecond hflags.2
  have hstored : ∀ row ∈ before, row ∈ rows ∧ rowAllowed row agent record (hiddenOf state agent record) = true :=
    fun row hrow => ⟨((hexact.page _ _ hbefore).sound row hrow).1, (hrows row hrow).1⟩
  have hstored' : ∀ row ∈ after, row ∈ rows ∧ rowAllowed row agent record (hiddenOf state agent record) = true :=
    fun row hrow => ⟨((hexact.pageAfter _ _ hafter).sound row hrow).1, (hrows' row hrow).1⟩
  have hpages : ∀ row ∈ before ++ after, row ∈ rows ∧ rowAllowed row agent record (hiddenOf state agent record) = true := by
    intro row hrow
    rcases List.mem_append.mp hrow with hin | hin
    · exact hstored row hin
    · exact hstored' row hin
  have hfiled := filed_merged hcopies hstored hstored'
  rw [← hmerged, ← hmerged'] at hfiled
  rw [hflags.1, hflags.2] at hwindow
  refine ⟨before, after, kept, hbefore, hafter, fun row hrow => ⟨(hstored row hrow).1, (hstored row hrow).2, (hrows row hrow).2⟩,
    fun row hrow => ⟨(hstored' row hrow).1, (hstored' row hrow).2, (hrows' row hrow).2⟩, ?_, hwindow.symm⟩
  exact filed_stillAllowed hfiled (fun m hm => hm.visible hpages) hcopies hanchor hkept

def Earlier (state : DaemonState) (rows : List HistoryMessage) (agent : String) (record : SessionRecord) (anchor m : Message) : Prop :=
  Visible state rows agent record m ∧ (compare (messageOrder m) (messageOrder anchor)).isLT = true

def Later (state : DaemonState) (rows : List HistoryMessage) (agent : String) (record : SessionRecord) (anchor m : Message) : Prop :=
  Visible state rows agent record m ∧ (compare (messageOrder m) (messageOrder anchor)).isGT = true

theorem order_self (m : Message) : compare (messageOrder m) (messageOrder m) = .eq := Std.ReflCmp.compare_self

theorem nearest_older {kept : Table String Message} {k : ℕ}
    (hpages : ∀ row ∈ page, row ∈ rows ∧ rowAllowed row agent record (hiddenOf state agent record) = true)
    (hfiled : Filed kept fun m => Gathered state agent record page m ∨ m = anchor) (hbefore : ∀ row ∈ before, row ∈ page)
    (hplaced : ∀ row ∈ before, misplaced true (messageOrder anchor) row = false)
    (hnearest : Nearest newestRowFirst (k + 1)
      (fun row => row ∈ rows ∧ InPage ⟨agent, record.id, some (messageOrder anchor), k + 1, false⟩ row) before) :
    Nearest newestFirst k (Earlier state rows agent record anchor) ((olderThan kept (messageOrder anchor)).take k) ∧
      ∀ m, Earlier state rows agent record anchor m → m ∉ (olderThan kept (messageOrder anchor)).take k →
        k < (olderThan kept (messageOrder anchor)).length ∨ k + 1 ≤ before.length := by
  have hmem : ∀ m, m ∈ olderThan kept (messageOrder anchor) ↔
      Gathered state agent record page m ∧ (compare (messageOrder m) (messageOrder anchor)).isLT = true := by
    intro m
    unfold olderThan
    rw [hfiled.mem_side]
    constructor
    · rintro ⟨hm | rfl, hlt⟩
      · exact ⟨hm, hlt⟩
      · rw [order_self] at hlt
        cases hlt
    · rintro ⟨hm, hlt⟩
      exact ⟨Or.inl hm, hlt⟩
  have hin : ∀ row ∈ before, row.message ∈ olderThan kept (messageOrder anchor) := by
    intro row hrow
    have hside := hplaced row hrow
    refine (hmem _).mpr ⟨Or.inl ⟨row, hbefore row hrow, rfl⟩, ?_⟩
    exact isLT_of_not_isGE hside
  have hpage : (before.map (·.message)).Pairwise fun a b => (newestFirst a b).isLT = true :=
    List.pairwise_map.mpr hnearest.sorted
  have hsorted : (olderThan kept (messageOrder anchor)).Pairwise fun a b => (newestFirst a b).isLT = true :=
    hfiled.sorted_side _ fun m m' h => (id_of_order_eq h).symm
  have hcovers : ∀ m, Earlier state rows agent record anchor m → m ∈ olderThan kept (messageOrder anchor) ∨
      ((before.map (·.message)).length = k + 1 ∧ ∀ b ∈ before.map (·.message), (newestFirst b m).isLT = true) := by
    rintro m ⟨hm, hlt⟩
    rcases hm with hhot | ⟨row, hrow, hallowed, rfl⟩
    · exact Or.inl ((hmem m).mpr ⟨Or.inr hhot, hlt⟩)
    · obtain ⟨hagent, hsession, -, hshown, -⟩ := rowAllowed_iff.mp hallowed
      rcases hnearest.covers row ⟨hrow, hagent, hsession, Or.inr hshown, fun before h => Option.some.inj h ▸ hlt⟩ with
        hfound | ⟨hfull, hnearer⟩
      · exact Or.inl (hin row hfound)
      · refine Or.inr ⟨by rw [List.length_map]; exact hfull, fun m hm => ?_⟩
        obtain ⟨row', hrow', rfl⟩ := List.mem_map.mp hm
        exact hnearer row' hrow'
  have hsides := nearest_of_page hsorted hpage (fun m hm => ⟨((hmem m).mp hm).1.visible hpages, ((hmem m).mp hm).2⟩)
    (List.forall_mem_map.mpr hin) hcovers
  rw [List.length_map] at hsides
  exact hsides

theorem nearest_newer {kept : Table String Message} {k : ℕ}
    (hpages : ∀ row ∈ page, row ∈ rows ∧ rowAllowed row agent record (hiddenOf state agent record) = true)
    (hfiled : Filed kept fun m => Gathered state agent record page m ∨ m = anchor) (hafter : ∀ row ∈ after, row ∈ page)
    (hplaced : ∀ row ∈ after, misplaced false (messageOrder anchor) row = false)
    (hnearest : Nearest oldestRowFirst (k + 1)
      (fun row => row ∈ rows ∧ InPageAfter ⟨agent, record.id, messageOrder anchor, k + 1, false⟩ row) after) :
    Nearest oldestFirst k (Later state rows agent record anchor) ((newerThan kept (messageOrder anchor)).take k) ∧
      ∀ m, Later state rows agent record anchor m → m ∉ (newerThan kept (messageOrder anchor)).take k →
        k < (newerThan kept (messageOrder anchor)).length ∨ k + 1 ≤ after.length := by
  have hmem : ∀ m, m ∈ newerThan kept (messageOrder anchor) ↔
      Gathered state agent record page m ∧ (compare (messageOrder m) (messageOrder anchor)).isGT = true := by
    intro m
    unfold newerThan
    rw [hfiled.mem_side]
    constructor
    · rintro ⟨hm | rfl, hgt⟩
      · exact ⟨hm, hgt⟩
      · rw [order_self] at hgt
        cases hgt
    · rintro ⟨hm, hgt⟩
      exact ⟨Or.inl hm, hgt⟩
  have hin : ∀ row ∈ after, row.message ∈ newerThan kept (messageOrder anchor) := by
    intro row hrow
    have hside : (compare row.order (messageOrder anchor)).isLE = false := hplaced row hrow
    refine (hmem _).mpr ⟨Or.inl ⟨row, hafter row hrow, rfl⟩, ?_⟩
    show (compare row.order (messageOrder anchor)).isGT = true
    cases hcmp : compare row.order (messageOrder anchor) with
    | lt =>
      rw [hcmp] at hside
      cases hside
    | eq =>
      rw [hcmp] at hside
      cases hside
    | gt => rfl
  have hpage : (after.map (·.message)).Pairwise fun a b => (oldestFirst a b).isLT = true :=
    List.pairwise_map.mpr hnearest.sorted
  have hsorted : (newerThan kept (messageOrder anchor)).Pairwise fun a b => (oldestFirst a b).isLT = true :=
    hfiled.sorted_side _ fun m m' h => id_of_order_eq h
  have hcovers : ∀ m, Later state rows agent record anchor m → m ∈ newerThan kept (messageOrder anchor) ∨
      ((after.map (·.message)).length = k + 1 ∧ ∀ b ∈ after.map (·.message), (oldestFirst b m).isLT = true) := by
    rintro m ⟨hm, hgt⟩
    rcases hm with hhot | ⟨row, hrow, hallowed, rfl⟩
    · exact Or.inl ((hmem m).mpr ⟨Or.inr hhot, hgt⟩)
    · obtain ⟨hagent, hsession, -, hshown, -⟩ := rowAllowed_iff.mp hallowed
      rcases hnearest.covers row ⟨hrow, hagent, hsession, Or.inr hshown, hgt⟩ with hfound | ⟨hfull, hnearer⟩
      · exact Or.inl (hin row hfound)
      · refine Or.inr ⟨by rw [List.length_map]; exact hfull, fun m hm => ?_⟩
        obtain ⟨row', hrow', rfl⟩ := List.mem_map.mp hm
        exact hnearer row' hrow'
  have hsides := nearest_of_page hsorted hpage (fun m hm => ⟨((hmem m).mp hm).1.visible hpages, ((hmem m).mp hm).2⟩)
    (List.forall_mem_map.mpr hin) hcovers
  rw [List.length_map] at hsides
  exact hsides

theorem pairwise_window {older newer : List Message} (holder : older.Pairwise fun a b => (newestFirst a b).isLT = true)
    (hnewer : newer.Pairwise fun a b => (oldestFirst a b).isLT = true)
    (hbefore : ∀ m ∈ older, (compare (messageOrder m) (messageOrder anchor)).isLT = true)
    (hafter : ∀ m ∈ newer, (compare (messageOrder m) (messageOrder anchor)).isGT = true) :
    (older.reverse ++ anchor :: newer).Pairwise fun a b => (compare (messageOrder a) (messageOrder b)).isLT = true := by
  have hgt : ∀ m ∈ newer, (compare (messageOrder anchor) (messageOrder m)).isLT = true := by
    intro m hm
    have hswap : compare (messageOrder anchor) (messageOrder m) = (compare (messageOrder m) (messageOrder anchor)).swap :=
      Std.OrientedCmp.eq_swap
    rw [hswap, Ordering.isLT_swap]
    exact hafter m hm
  rw [List.pairwise_append, List.pairwise_reverse, List.pairwise_cons]
  refine ⟨holder, ⟨hgt, hnewer⟩, fun a ha b hb => ?_⟩
  rw [List.mem_reverse] at ha
  rcases List.mem_cons.mp hb with rfl | hb
  · exact hbefore a ha
  · have hfirst : (oldestFirst a anchor).isLT = true := hbefore a ha
    have hsecond : (oldestFirst anchor b).isLT = true := hgt b hb
    exact isLT_trans hfirst hsecond

/-- **A window is the neighbourhood of its anchor**: if nothing was omitted and the state did not change, its messages are, in
order and each once, the nearest earlier visible messages, the anchor, and the nearest later ones; and it says that there are
more whenever there are. -/
theorem window_neighbourhood {window : ConversationWindow} (hexact : Exact store rows)
    (hrecord : state.sessions[(agent, request.sessionId)]? = some record) (hcopies : CopiesAgree state rows agent record)
    (hvalid : validId request.anchorMessageId = true) (h : windowInner store state state agent request = .ok (some window))
    (homitted : window.omitted = false) :
    ∃ anchor older newer, anchor.id = request.anchorMessageId ∧ Visible state rows agent record anchor ∧
      window.messages = older.reverse ++ anchor :: newer ∧
      Nearest newestFirst request.beforeCount (Earlier state rows agent record anchor) older ∧
      Nearest oldestFirst request.afterCount (Later state rows agent record anchor) newer ∧
      (window.messages.Pairwise fun a b => (compare (messageOrder a) (messageOrder b)).isLT = true) ∧
      (window.messages.map (·.id)).Nodup ∧
      (∀ m, Earlier state rows agent record anchor m → m ∉ window.messages → window.hasEarlier = true) ∧
      ∀ m, Later state rows agent record anchor m → m ∉ window.messages → window.hasLater = true := by
  unfold windowInner at h
  rw [hrecord] at h
  split at h
  · cases h
  next found hfound =>
  obtain rfl : found = record := (Option.some.inj (Option.filter_eq_some_iff.mp hfound).1).symm
  obtain ⟨result, hresult, h⟩ := bind_eq_ok.mp h
  rcases result with _ | anchor
  · cases h
  obtain ⟨hid, hanchor⟩ := findAnchor_visible hexact hvalid hresult
  obtain ⟨before, after, kept, hbefore, hafter, hrows, hrows', hfiled, rfl⟩ :=
    windowAround_spec hexact hcopies hanchor h homitted
  have hpages : ∀ row ∈ before ++ after, row ∈ rows ∧ rowAllowed row agent found (hiddenOf state agent found) = true := by
    intro row hrow
    rcases List.mem_append.mp hrow with hin | hin
    · exact ⟨(hrows row hin).1, (hrows row hin).2.1⟩
    · exact ⟨(hrows' row hin).1, (hrows' row hin).2.1⟩
  obtain ⟨holder, hearlier⟩ := nearest_older hpages hfiled (fun row h => List.mem_append_left _ h)
    (fun row h => (hrows row h).2.2) (hexact.page _ _ hbefore)
  obtain ⟨hnewer, hlater⟩ := nearest_newer hpages hfiled (fun row h => List.mem_append_right _ h)
    (fun row h => (hrows' row h).2.2) (hexact.pageAfter _ _ hafter)
  have hsorted := pairwise_window holder.sorted hnewer.sorted (fun m hm => (holder.sound m hm).2) fun m hm => (hnewer.sound m hm).2
  refine ⟨anchor, _, _, hid, hanchor, rfl, holder, hnewer, hsorted, ?_, ?_, ?_⟩
  · rw [List.nodup_iff_pairwise_ne, List.pairwise_map]
    refine hsorted.imp_of_mem fun {a b} ha hb hlt hsame => ?_
    have hvisible : ∀ m ∈ ((olderThan kept (messageOrder anchor)).take request.beforeCount).reverse ++
        anchor :: (newerThan kept (messageOrder anchor)).take request.afterCount, Visible state rows agent found m := by
      intro m hm
      rcases List.mem_append.mp hm with hm | hm
      · exact (holder.sound m (List.mem_reverse.mp hm)).1
      · rcases List.mem_cons.mp hm with rfl | hm
        · exact hanchor
        · exact (hnewer.sound m hm).1
    obtain rfl := hcopies a b (hvisible a ha).copy (hvisible b hb).copy hsame
    rw [order_self] at hlt
    cases hlt
  · intro m hm hout
    have hnot : m ∉ (olderThan kept (messageOrder anchor)).take request.beforeCount :=
      fun hin => hout (List.mem_append_left _ (List.mem_reverse.mpr hin))
    show (decide _ || decide _ || false) = true
    rcases hearlier m hm hnot with hmore | hmore
    · rw [decide_eq_true hmore]
      rfl
    · rw [decide_eq_true hmore, Bool.or_true]
      rfl
  · intro m hm hout
    have hnot : m ∉ (newerThan kept (messageOrder anchor)).take request.afterCount :=
      fun hin => hout (List.mem_append_right _ (List.mem_cons_of_mem _ hin))
    show (decide _ || decide _ || false) = true
    rcases hlater m hm hnot with hmore | hmore
    · rw [decide_eq_true hmore]
      rfl
    · rw [decide_eq_true hmore, Bool.or_true]
      rfl

end

end AnimaCore.HistoryRead

namespace AnimaCore.HistoryRead.Sample

open Lib
open RunDelta (Message MessageRole)
open HotTail (SessionRecord)

def message (id : String) (role : MessageRole) (at_ : ℕ) : Message where
  id := id
  agentId := "agent"
  roomId := "session"
  content := { text := "text", attachments := none, metadata := none }
  role := role
  createdAtMs := at_

def record : SessionRecord where
  id := "session"
  agentId := "agent"
  kind := .chat
  title := ""
  parentRunId := none
  parentAgentId := none
  prunedThrough := none
  roomId := none

def state : DaemonState where
  agents := (∅ : Table String AgentRuntime).insert "agent"
    { config := { settings := none }, messages := [message "msg-30-2" .user 30, message "msg-40-3" .assistant 40] }
  sessions := (∅ : Table (String × String) SessionRecord).insert ("agent", "session") record
  pendingHistoryDeletions := []

def rows : MemoryHistoryStore where
  messages := (∅ : Table String HistoryMessage).insert "msg-20-1" ⟨"agent", "session", false, message "msg-20-1" .assistant 20⟩

def request : WindowRequest := ⟨"session", "msg-30-2", 1, 1⟩

def window : ConversationWindow where
  sessionId := "session"
  anchorMessageId := "msg-30-2"
  messages := [message "msg-20-1" .assistant 20, message "msg-30-2" .user 30, message "msg-40-3" .assistant 40]
  hasEarlier := false
  hasLater := false
  omitted := false

theorem window_read : windowInner rows.store state state "agent" request = .ok (some window) := by decide +kernel

theorem rows_keyed : rows.Keyed := by
  intro id row h
  have hone : rows.messages.toList = [("msg-20-1", ⟨"agent", "session", false, message "msg-20-1" .assistant 20⟩)] := by
    decide +kernel
  have hin := Table.mem_toList.mpr h
  rw [hone, List.mem_singleton] at hin
  cases hin
  rfl

theorem copies_agree : CopiesAgree state rows.messages.vals "agent" record := by
  have hcopy : ∀ m, Copy state rows.messages.vals "agent" record m →
      m ∈ hotMessages state "agent" record ++ rows.messages.vals.map (·.message) := by
    rintro m (h | ⟨row, hrow, -, -, rfl⟩)
    · exact List.mem_append_left _ h
    · exact List.mem_append_right _ (List.mem_map_of_mem hrow)
  have hall : ∀ m ∈ hotMessages state "agent" record ++ rows.messages.vals.map (·.message),
      ∀ m' ∈ hotMessages state "agent" record ++ rows.messages.vals.map (·.message), m.id = m'.id → m = m' := by
    decide +kernel
  exact fun m m' hm hm' => hall m (hcopy m hm) m' (hcopy m' hm')

theorem window_neighbourhood_read : ∃ anchor older newer, anchor.id = "msg-30-2" ∧
    window.messages = older.reverse ++ anchor :: newer ∧
    Nearest newestFirst 1 (Earlier state rows.messages.vals "agent" record anchor) older ∧
    Nearest oldestFirst 1 (Later state rows.messages.vals "agent" record anchor) newer := by
  obtain ⟨anchor, older, newer, hid, -, hmessages, holder, hnewer, -⟩ :=
    window_neighbourhood (MemoryHistoryStore.memory_exact rows_keyed) (by decide +kernel) copies_agree (by decide +kernel)
      window_read rfl
  exact ⟨anchor, older, newer, hid, hmessages, holder, hnewer⟩

end AnimaCore.HistoryRead.Sample
