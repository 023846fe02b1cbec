import AnimaCore.Compaction.Labels
import AnimaCore.HotTail.Rooms
import AnimaCore.Lib.TopK

/-!
# AnimaCore.Compaction.PrunedTurns — what the summarizer misses of the pruned turns

* `fill`: what the pass keeps of the span's messages; `StopsAt` says where it stops.
-/

namespace AnimaCore.Compaction

open Lib RunDelta HotTail

variable {rows : List HistoryMessage} {agentId sessionId : String} {span : PrunedSpan} {maxChars : ℕ}

/-! ## The rows in order -/

instance : Std.OrientedCmp compareNewest where
  eq_swap {a b} := by
    unfold compareNewest
    exact Std.OrientedCmp.eq_swap

instance : Std.TransCmp compareNewest where
  isLE_trans {a b c} hab hbc := by
    unfold compareNewest at *
    exact Std.TransCmp.isLE_trans hbc hab

/-- The messages of the session have identifiers of their own. -/
def DistinctIds (rows : List HistoryMessage) : Prop := (rows.map fun row => row.message.id).Nodup

theorem eq_of_order {l : List HistoryMessage} (h : DistinctIds l) {a b : HistoryMessage} (ha : a ∈ l) (hb : b ∈ l)
    (heq : compareNewest a b = .eq) : a = b := by
  have horder : b.order = a.order := Std.LawfulEqCmp.eq_of_compare heq
  have hid : b.message.id = a.message.id := congrArg (fun order : MessageOrder => order.2.2) horder
  exact List.inj_on_of_nodup_map h ha hb hid.symm

def sorted (l : List HistoryMessage) : List HistoryMessage := l.mergeSort fun left right => (compareNewest left right).isLE

theorem mem_sorted {l : List HistoryMessage} {row : HistoryMessage} : row ∈ sorted l ↔ row ∈ l :=
  (List.mergeSort_perm l _).mem_iff

theorem pairwise_sorted {l : List HistoryMessage} (h : DistinctIds l) :
    (sorted l).Pairwise fun a b => (compareNewest a b).isLT = true :=
  sorted_mergeSort h.of_map fun _ ha _ hb => eq_of_order h ha hb

theorem DistinctIds.filter {l : List HistoryMessage} (h : DistinctIds l) (q : HistoryMessage → Bool) :
    DistinctIds (l.filter q) := List.Nodup.sublist (List.filter_sublist.map _) h

theorem sorted_filter {l : List HistoryMessage} (h : DistinctIds l) (q : HistoryMessage → Bool) :
    sorted (l.filter q) = (sorted l).filter q := by
  refine eq_of_sorted (pairwise_sorted (h.filter q)) ((pairwise_sorted h).filter q) fun row => ?_
  rw [mem_sorted, List.mem_filter, List.mem_filter, mem_sorted]

theorem pageMessages_eq (h : DistinctIds (sessionRows rows agentId sessionId)) (before : MessageOrder) (limit : ℕ) :
    pageMessages rows agentId sessionId before limit =
      ((sorted (sessionRows rows agentId sessionId)).filter fun row => (compare row.order before).isLT).take limit := by
  rw [← sorted_filter h]
  rfl

/-! ## One pass -/

theorem filter_older {front back : List HistoryMessage} {row : HistoryMessage}
    (hl : (front ++ row :: back).Pairwise fun a b => (compareNewest a b).isLT = true) :
    (front ++ row :: back).filter (fun other => (compare other.order row.order).isLT) = back := by
  obtain ⟨-, hback, hcross⟩ := List.pairwise_append.mp hl
  have hfront : front.filter (fun other => (compare other.order row.order).isLT) = [] :=
    List.filter_eq_nil_iff.mpr fun a ha => by
      have hlt : (compareNewest a row).isLT = true := hcross a ha row List.mem_cons_self
      have := isLT_asymm a row hlt
      unfold compareNewest at this
      rw [this]
      decide
  have hself : (compare row.order row.order).isLT = false := by
    have hrefl : compare row.order row.order = .eq := Std.ReflCmp.compare_self
    rw [hrefl]
    rfl
  have hall : back.filter (fun other => (compare other.order row.order).isLT) = back :=
    List.filter_eq_self.mpr fun b hb => List.rel_of_pairwise_cons hback hb
  rw [List.filter_append, hfront, List.filter_cons_of_neg (by rw [hself]; decide), hall, List.nil_append]

theorem readRows_cons (span : PrunedSpan) (maxChars : ℕ) (p : Progress) (row : HistoryMessage) (l : List HistoryMessage) :
    readRows span maxChars p (row :: l) =
      if (compare row.order span.through.order).isGT then readRows span maxChars { p with before := row.order } l
      else if span.covers row then ({ p with before := row.order }, true)
      else if startsTurn row.message ∧ maxChars ≤ p.chars + transcriptChars row.message then
        (⟨row.order, p.newestFirst ++ [row.message], p.chars + transcriptChars row.message⟩, true)
      else readRows span maxChars ⟨row.order, p.newestFirst ++ [row.message], p.chars + transcriptChars row.message⟩ l := rfl

theorem readRows_append (span : PrunedSpan) (maxChars : ℕ) (p : Progress) (xs ys : List HistoryMessage) :
    readRows span maxChars p (xs ++ ys) =
      if (readRows span maxChars p xs).2 then readRows span maxChars p xs
      else readRows span maxChars (readRows span maxChars p xs).1 ys := by
  induction xs generalizing p with
  | nil => rfl
  | cons row xs ih =>
    rw [List.cons_append, readRows_cons, readRows_cons]
    by_cases hnew : (compare row.order span.through.order).isGT
    · rw [if_pos hnew, if_pos hnew]
      exact ih _
    · rw [if_neg hnew, if_neg hnew]
      by_cases hcov : span.covers row
      · rw [if_pos hcov, if_pos hcov]
        rfl
      · rw [if_neg hcov, if_neg hcov]
        by_cases hstop : startsTurn row.message ∧ maxChars ≤ p.chars + transcriptChars row.message
        · rw [if_pos hstop, if_pos hstop]
          rfl
        · rw [if_neg hstop, if_neg hstop]
          exact ih _

theorem readRows_before {p : Progress} {xs : List HistoryMessage} {row : HistoryMessage}
    (h : (readRows span maxChars p (xs ++ [row])).2 = false) :
    (readRows span maxChars p (xs ++ [row])).1.before = row.order := by
  rw [readRows_append] at h ⊢
  by_cases hxs : (readRows span maxChars p xs).2 = true
  · rw [if_pos hxs] at h
    rw [hxs] at h
    cases h
  · rw [if_neg hxs] at h ⊢
    generalize (readRows span maxChars p xs).1 = p' at h ⊢
    rw [readRows_cons] at h ⊢
    by_cases hnew : (compare row.order span.through.order).isGT
    · rw [if_pos hnew]
      rfl
    · rw [if_neg hnew] at h ⊢
      by_cases hcov : span.covers row
      · rw [if_pos hcov]
      · rw [if_neg hcov] at h ⊢
        by_cases hstop : startsTurn row.message ∧ maxChars ≤ p'.chars + transcriptChars row.message
        · rw [if_pos hstop]
        · rw [if_neg hstop]
          rfl

theorem readPages_eq (h : DistinctIds (sessionRows rows agentId sessionId)) (fuel : ℕ) (p : Progress)
    (pages : List (List HistoryMessage)) (hfuel :
      ((sorted (sessionRows rows agentId sessionId)).filter fun row => (compare row.order p.before).isLT).length < fuel) :
    ∃ more, readPages rows agentId sessionId span maxChars fuel p pages =
        some ((readRows span maxChars p
          ((sorted (sessionRows rows agentId sessionId)).filter fun row => (compare row.order p.before).isLT)).1, pages ++ more) ∧
      more.flatten <+: (sorted (sessionRows rows agentId sessionId)).filter fun row => (compare row.order p.before).isLT := by
  induction fuel generalizing p pages with
  | zero => omega
  | succ fuel ih =>
    have hpair := pairwise_sorted h
    set all := sorted (sessionRows rows agentId sessionId) with hall
    set left := all.filter fun row => (compare row.order p.before).isLT with hleft
    have hpage : pageMessages rows agentId sessionId p.before prunedPageRows = left.take prunedPageRows := by
      rw [pageMessages_eq h]
    have hsplit := List.take_append_drop prunedPageRows left
    have hread := readRows_append span maxChars p (left.take prunedPageRows) (left.drop prunedPageRows)
    rw [hsplit] at hread
    unfold readPages
    simp only [hpage]
    by_cases hend : (readRows span maxChars p (left.take prunedPageRows)).2 = true
    · rw [if_pos (.inl hend)]
      refine ⟨[left.take prunedPageRows], ?_, ?_⟩
      · rw [hread, if_pos hend]
      · rw [List.flatten_singleton]
        exact List.take_prefix _ _
    · by_cases hshort : (left.take prunedPageRows).length < prunedPageRows
      · have hwhole : left.take prunedPageRows = left := by
          rw [List.length_take] at hshort
          exact List.take_of_length_le (by omega)
        rw [if_pos (.inr hshort), hwhole]
        exact ⟨[left], rfl, by rw [List.flatten_singleton]⟩
      · rw [if_neg (by rintro (h1 | h2); exacts [hend h1, hshort h2])]
        -- a full page: the cursor moves to its last row
        obtain ⟨xs, row, hxs⟩ : ∃ xs row, left.take prunedPageRows = xs ++ [row] := by
          have hne : left.take prunedPageRows ≠ [] := by
            intro hnil
            rw [hnil] at hshort
            exact hshort (by decide)
          exact ⟨_, _, (List.dropLast_append_getLast hne).symm⟩
        have hnoEnd : (readRows span maxChars p (xs ++ [row])).2 = false := by
          rw [← hxs]
          exact Bool.eq_false_iff.mpr hend
        have hbefore := readRows_before hnoEnd
        rw [← hxs] at hbefore
        have hdrop : all.filter (fun other => (compare other.order row.order).isLT) = left.drop prunedPageRows := by
          have htake : row ∈ left.take prunedPageRows := by
            rw [hxs]
            simp
          have hrow : row ∈ left := List.mem_of_mem_take htake
          have hlt : (compare row.order p.before).isLT = true := (List.mem_filter.mp hrow).2
          have hsame : all.filter (fun other => (compare other.order row.order).isLT) =
              left.filter fun other => (compare other.order row.order).isLT := by
            rw [hleft, List.filter_filter]
            refine List.filter_congr fun other _ => ?_
            by_cases ho : (compare other.order row.order).isLT = true
            · have hlt' : (compare other.order p.before).isLT = true := by
                rw [Ordering.isLT_iff_eq_lt] at ho hlt ⊢
                exact Std.TransCmp.lt_trans ho hlt
              rw [ho, hlt']
              rfl
            · rw [Bool.eq_false_iff.mpr ho]
              rfl
          rw [hsame]
          have hform : left = xs ++ row :: left.drop prunedPageRows := by
            conv_lhs => rw [← hsplit, hxs, List.append_assoc, List.singleton_append]
          have hpl : left.Pairwise fun a b => (compareNewest a b).isLT = true := hpair.filter _
          rw [hform] at hpl
          conv_lhs => rw [hform]
          exact filter_older hpl
        have hlen : (left.drop prunedPageRows).length < fuel := by
          have hpos : 0 < left.length := by
            have := congrArg List.length hxs
            rw [List.length_take, List.length_append, List.length_singleton] at this
            omega
          rw [List.length_drop]
          have : 0 < prunedPageRows := by decide
          omega
        obtain ⟨more, hmore, hprefix⟩ := ih (readRows span maxChars p (left.take prunedPageRows)).1
          (pages ++ [left.take prunedPageRows]) (by rw [hbefore, hdrop]; exact hlen)
        rw [hbefore, hdrop] at hmore hprefix
        refine ⟨left.take prunedPageRows :: more, ?_, ?_⟩
        · rw [hmore, hread, if_neg hend, List.append_assoc, List.singleton_append]
        · rw [List.flatten_cons]
          conv_rhs => rw [← hsplit]
          exact (List.prefix_append_right_inj _).mpr hprefix

theorem readPages_mono {fuel more : ℕ} {p : Progress} {pages : List (List HistoryMessage)}
    {read : Progress × List (List HistoryMessage)}
    (hread : readPages rows agentId sessionId span maxChars fuel p pages = some read) (hle : fuel ≤ more) :
    readPages rows agentId sessionId span maxChars more p pages = some read := by
  induction fuel generalizing more p pages with
  | zero => cases hread
  | succ fuel ih =>
    obtain ⟨more, rfl⟩ : ∃ k, more = k + 1 := ⟨more - 1, by omega⟩
    unfold readPages at hread ⊢
    dsimp only at hread ⊢
    by_cases hend : (readRows span maxChars p (pageMessages rows agentId sessionId p.before prunedPageRows)).2 = true ∨
        (pageMessages rows agentId sessionId p.before prunedPageRows).length < prunedPageRows
    · rw [if_pos hend] at hread ⊢
      exact hread
    · rw [if_neg hend] at hread ⊢
      exact ih hread (by omega)

/-! ## What the pass keeps -/

/-- The characters of some messages in a transcript. -/
def chars (messages : List Message) : ℕ := (messages.map transcriptChars).sum

theorem chars_reverse (xs : List Message) : chars xs.reverse = chars xs := by
  unfold chars
  rw [List.map_reverse, List.sum_reverse]

/-- The messages kept, newest first: up to a user message that reaches the bound. -/
def fill (maxChars : ℕ) : ℕ → List Message → List Message
  | _, [] => []
  | used, message :: older =>
    if startsTurn message ∧ maxChars ≤ used + transcriptChars message then [message]
    else message :: fill maxChars (used + transcriptChars message) older

theorem readRows_skip (p : Progress) {skip : List HistoryMessage}
    (hskip : ∀ row ∈ skip, (compare row.order span.through.order).isGT = true) (l : List HistoryMessage) :
    ∃ before, readRows span maxChars p (skip ++ l) = readRows span maxChars { p with before } l := by
  induction skip generalizing p with
  | nil => exact ⟨p.before, rfl⟩
  | cons row skip ih =>
    obtain ⟨before, hread⟩ := ih { p with before := row.order } fun r hr => hskip r (List.mem_cons_of_mem _ hr)
    refine ⟨before, ?_⟩
    rw [List.cons_append, readRows_cons, if_pos (hskip row List.mem_cons_self), hread]

theorem readRows_fill (p : Progress) {l rest : List HistoryMessage}
    (hold : ∀ row ∈ l ++ rest, (compare row.order span.through.order).isGT = false)
    (hfree : ∀ row ∈ l, span.covers row = false) (hrest : ∀ row ∈ rest.head?, span.covers row = true) :
    (readRows span maxChars p (l ++ rest)).1.newestFirst =
      p.newestFirst ++ fill maxChars p.chars (l.map HistoryMessage.message) := by
  induction l generalizing p with
  | nil =>
    rw [List.nil_append, List.map_nil]
    unfold fill
    rw [List.append_nil]
    rcases rest with _ | ⟨row, rest⟩
    · rfl
    · rw [readRows_cons, if_neg (by rw [hold row (by simp)]; decide), if_pos (hrest row rfl)]
  | cons row l ih =>
    rw [List.cons_append, readRows_cons, if_neg (by rw [hold row (by simp)]; decide),
      if_neg (by rw [hfree row List.mem_cons_self]; decide), List.map_cons]
    unfold fill
    by_cases hstop : startsTurn row.message ∧ maxChars ≤ p.chars + transcriptChars row.message
    · rw [if_pos hstop, if_pos hstop]
    · rw [if_neg hstop, if_neg hstop, ih _ (fun r hr => hold r (by rw [List.cons_append]; exact List.mem_cons_of_mem _ hr))
        fun r hr => hfree r (List.mem_cons_of_mem _ hr)]
      show p.newestFirst ++ [row.message] ++ _ = _
      rw [List.append_assoc, List.singleton_append]

/-- Where the read stops: at the newest user message from which the messages reach the bound, or at the oldest message. -/
structure StopsAt (maxChars : ℕ) (older read : List Message) : Prop where
  reached : older = [] ∨ (read.head?.any startsTurn = true ∧ maxChars ≤ chars read)
  newest : ∀ s, s <:+ read → s ≠ read → s.head?.any startsTurn = true → chars s < maxChars

theorem fill_spec (maxChars used : ℕ) (l : List Message) : ∃ rest, l = fill maxChars used l ++ rest ∧
    (rest = [] ∨ ∃ front u, fill maxChars used l = front ++ [u] ∧ startsTurn u = true ∧
      maxChars ≤ used + chars (fill maxChars used l)) ∧
    ∀ front u back, fill maxChars used l = front ++ u :: back → back ≠ [] → startsTurn u = true →
      used + chars (front ++ [u]) < maxChars := by
  induction l generalizing used with
  | nil =>
    refine ⟨[], rfl, .inl rfl, fun front u back heq => ?_⟩
    have := congrArg List.length heq
    simp [fill] at this
  | cons message l ih =>
    unfold fill
    by_cases hstop : startsTurn message = true ∧ maxChars ≤ used + transcriptChars message
    · rw [if_pos hstop]
      refine ⟨l, rfl, .inr ⟨[], message, rfl, hstop.1, ?_⟩, fun front u back heq hback => ?_⟩
      · show maxChars ≤ used + (transcriptChars message + 0)
        omega
      · have := congrArg List.length heq
        rw [List.length_singleton, List.length_append, List.length_cons] at this
        exact absurd (List.length_eq_zero_iff.mp (by omega)) hback
    · rw [if_neg hstop]
      obtain ⟨rest, hl, hreach, hfirst⟩ := ih (used + transcriptChars message)
      refine ⟨rest, by rw [List.cons_append, ← hl], ?_, fun front u back heq hback hu => ?_⟩
      · rcases hreach with hnil | ⟨front, u, hfill, hu, hmax⟩
        · exact .inl hnil
        · refine .inr ⟨message :: front, u, by rw [hfill, List.cons_append], hu, ?_⟩
          show maxChars ≤ used + (transcriptChars message + chars _)
          omega
      · rcases front with _ | ⟨m, front⟩
        · obtain ⟨rfl, -⟩ := List.cons.inj heq
          show used + (transcriptChars message + 0) < maxChars
          by_contra hge
          exact hstop ⟨hu, by omega⟩
        · obtain ⟨rfl, hfill⟩ := List.cons.inj heq
          have := hfirst front u back hfill hback hu
          show used + (transcriptChars message + chars (front ++ [u])) < maxChars
          omega

theorem stopsAt_fill (maxChars : ℕ) (l : List Message) : ∃ older, l.reverse = older ++ (fill maxChars 0 l).reverse ∧
    StopsAt maxChars older (fill maxChars 0 l).reverse := by
  obtain ⟨rest, hl, hreach, hfirst⟩ := fill_spec maxChars 0 l
  refine ⟨rest.reverse, ?_, ?_, fun s hs hne hstart => ?_⟩
  · conv_lhs => rw [hl, List.reverse_append]
  · rcases hreach with rfl | ⟨front, u, hfill, hu, hmax⟩
    · exact .inl rfl
    · right
      rw [chars_reverse]
      refine ⟨?_, by omega⟩
      rw [hfill, List.reverse_append]
      exact hu
  · obtain ⟨t, ht⟩ := hs
    rcases s with _ | ⟨u, s⟩
    · cases hstart
    · have hfill : fill maxChars 0 l = s.reverse ++ u :: t.reverse := by
        rw [← List.reverse_reverse (fill maxChars 0 l), ← ht, List.reverse_append, List.reverse_cons, List.append_assoc,
          List.singleton_append]
      have hback : t.reverse ≠ [] := by
        intro hnil
        rw [List.reverse_eq_nil_iff.mp hnil, List.nil_append] at ht
        exact hne ht
      have hlt := hfirst _ u _ hfill hback hstart
      rw [← chars_reverse, List.reverse_cons]
      omega

/-! ## The span's messages -/

/-- The row is newer than the summary's last message, by its identifier and by its place. -/
def PrunedSpan.isNewer (span : PrunedSpan) (stored : List HistoryMessage) (row : HistoryMessage) : Bool :=
  (stored.all fun c => decide (span.coveredId = some c.message.id → (compare c.order row.order).isLT = true)) &&
    span.coveredOrder.all fun covered => (compare covered row.order).isLT

/-- The stored messages up to the mark and newer than the covered message, oldest first. -/
def spanMessages (rows : List HistoryMessage) (agentId sessionId : String) (span : PrunedSpan) : List Message :=
  let stored := sessionRows rows agentId sessionId
  ((sorted (stored.filter fun row => !(compare row.order span.through.order).isGT && span.isNewer stored row)).reverse).map
    HistoryMessage.message

/-- The summary's last message is stored behind the mark. -/
def CoversMark (rows : List HistoryMessage) (agentId sessionId : String) (span : PrunedSpan) : Prop :=
  ∃ c ∈ sessionRows rows agentId sessionId, span.coveredId = some c.message.id ∧
    (compare c.order span.through.order).isGT = true

def reach (rows : List HistoryMessage) (agentId sessionId : String) (span : PrunedSpan) : List HistoryMessage :=
  (sorted (sessionRows rows agentId sessionId)).filter fun row => !(compare row.order span.through.order).isGT

/-- The rows that the pass reads, newest first, up to the first covered one. -/
def readable (rows : List HistoryMessage) (agentId sessionId : String) (span : PrunedSpan) : List HistoryMessage :=
  (reach rows agentId sessionId span).takeWhile fun row => !span.covers row

section

variable (h : DistinctIds (sessionRows rows agentId sessionId))

include h

theorem pairwise_reach : (reach rows agentId sessionId span).Pairwise fun a b => (compareNewest a b).isLT = true :=
  (pairwise_sorted h).filter _

theorem mem_readable {row : HistoryMessage} : row ∈ readable rows agentId sessionId span ↔
    row ∈ reach rows agentId sessionId span ∧
      ∀ c ∈ reach rows agentId sessionId span, span.covers c = true → (compareNewest row c).isLT = true :=
  mem_takeWhile_iff isLT_asymm (pairwise_reach h)

omit h in
theorem mem_reach {row : HistoryMessage} : row ∈ reach rows agentId sessionId span ↔
    row ∈ sessionRows rows agentId sessionId ∧ (compare row.order span.through.order).isGT = false := by
  unfold reach
  rw [List.mem_filter, mem_sorted, Bool.not_eq_true']

theorem readable_eq (hmark : ¬CoversMark rows agentId sessionId span) :
    readable rows agentId sessionId span = sorted ((sessionRows rows agentId sessionId).filter fun row =>
      !(compare row.order span.through.order).isGT && span.isNewer (sessionRows rows agentId sessionId) row) := by
  have hsorted : (readable rows agentId sessionId span).Pairwise fun a b => (compareNewest a b).isLT = true :=
    (pairwise_reach h).sublist (List.takeWhile_sublist _)
  refine eq_of_sorted hsorted (pairwise_sorted (h.filter _)) fun row => ?_
  rw [mem_readable h, mem_reach, mem_sorted, List.mem_filter, Bool.and_eq_true, Bool.not_eq_true']
  unfold PrunedSpan.isNewer
  rw [Bool.and_eq_true, List.all_eq_true]
  constructor
  · rintro ⟨⟨hstored, hold⟩, hnewer⟩
    refine ⟨hstored, hold, fun c hc => decide_eq_true fun hid => ?_, ?_⟩
    · have hc' : (compare c.order span.through.order).isGT = false := by
        by_contra hgt
        exact hmark ⟨c, hc, hid, Bool.eq_true_of_not_eq_false hgt⟩
      refine hnewer c (mem_reach.mpr ⟨hc, hc'⟩) ?_
      unfold PrunedSpan.covers
      rw [hid, beq_self_eq_true]
      rfl
    · rw [Option.all_eq_true]
      intro covered hcovered
      by_contra hlt
      -- otherwise the row itself is covered
      have hself : span.covers row = true := by
        unfold PrunedSpan.covers
        rw [hcovered, Bool.or_eq_true]
        right
        have hswap : compare row.order covered = (compare covered row.order).swap := Std.OrientedCmp.eq_swap
        show (compare row.order covered).isLE = true
        rw [hswap]
        cases hcmp : compare covered row.order
        · rw [hcmp] at hlt
          exact absurd rfl hlt
        · rfl
        · rfl
      have hlt := hnewer row (mem_reach.mpr ⟨hstored, hold⟩) hself
      have := isLT_asymm row row hlt
      rw [hlt] at this
      cases this
  · rintro ⟨hstored, hold, hid, hcov⟩
    refine ⟨⟨hstored, hold⟩, fun c hc hcovers => ?_⟩
    unfold PrunedSpan.covers at hcovers
    rcases Bool.or_eq_true _ _ |>.mp hcovers with hcovers | hcovers
    · exact of_decide_eq_true (hid c (mem_reach.mp hc).1) (beq_iff_eq.mp hcovers)
    · obtain ⟨covered, hcovered, hle⟩ := Option.any_eq_true _ _ |>.mp hcovers
      have hlt := Option.all_eq_true _ _ |>.mp hcov covered hcovered
      rw [Ordering.isLT_iff_eq_lt] at hlt ⊢
      show compare c.order row.order = .lt
      exact Std.TransCmp.lt_of_isLE_of_lt hle hlt

omit h in
theorem spanMessages_of_coversMark (hmark : CoversMark rows agentId sessionId span) :
    spanMessages rows agentId sessionId span = [] := by
  obtain ⟨c, hc, hid, hgt⟩ := hmark
  unfold spanMessages
  rw [List.map_eq_nil_iff, List.reverse_eq_nil_iff, List.eq_nil_iff_forall_not_mem]
  intro row hrow
  rw [mem_sorted, List.mem_filter, Bool.and_eq_true, Bool.not_eq_true'] at hrow
  obtain ⟨-, hold, hnewer⟩ := hrow
  unfold PrunedSpan.isNewer at hnewer
  rw [Bool.and_eq_true, List.all_eq_true] at hnewer
  have hlt := of_decide_eq_true (hnewer.1 c hc) hid
  have hle : (compare row.order span.through.order).isLE = true := by
    cases hcmp : compare row.order span.through.order
    · rfl
    · rfl
    · rw [hcmp] at hold
      cases hold
  rw [Ordering.isLT_iff_eq_lt] at hlt
  have hback : compare c.order span.through.order = .lt := Std.TransCmp.lt_of_lt_of_isLE hlt hle
  rw [hback] at hgt
  cases hgt

theorem readSpan_eq (hstart : ∀ row ∈ reach rows agentId sessionId span, (compare row.order span.start).isLT = true) :
    ∃ p pages, (∀ fuel, (sessionRows rows agentId sessionId).length < fuel →
        readSpan rows agentId sessionId span maxChars fuel = some (p, pages)) ∧
      DistinctIds pages.flatten ∧
      p.newestFirst = fill maxChars 0 ((readable rows agentId sessionId span).map HistoryMessage.message) := by
  set left := (sorted (sessionRows rows agentId sessionId)).filter fun row => (compare row.order span.start).isLT with hleft
  have hpair : left.Pairwise fun a b => (compareNewest a b).isLT = true := (pairwise_sorted h).filter _
  have hlen : left.length ≤ (sessionRows rows agentId sessionId).length := by
    rw [← (List.mergeSort_perm (sessionRows rows agentId sessionId) fun a b => (compareNewest a b).isLE).length_eq]
    exact List.length_filter_le _ _
  obtain ⟨pages, hread, hfront⟩ := @readPages_eq rows agentId sessionId span maxChars h
    ((sessionRows rows agentId sessionId).length + 1) { before := span.start } [] (by
      show left.length < _
      omega)
  refine ⟨(readRows span maxChars { before := span.start } left).1, pages, fun fuel hfuel => ?_, ?_, ?_⟩
  · exact readPages_mono hread (by omega)
  · have hids : DistinctIds left := by
      have hsorted : DistinctIds (sorted (sessionRows rows agentId sessionId)) :=
        ((List.mergeSort_perm _ _).map _).nodup_iff.mpr h
      exact hsorted.filter _
    exact List.Nodup.sublist (hfront.sublist.map _) hids
  · have hold : left.filter (fun row => !(compare row.order span.through.order).isGT) = reach rows agentId sessionId span := by
      rw [hleft, List.filter_filter]
      refine List.filter_congr fun row hrow => ?_
      cases hgt : (compare row.order span.through.order).isGT
      · rw [hstart row (mem_reach.mpr ⟨mem_sorted.mp hrow, hgt⟩)]
        rfl
      · rfl
    have hsplit := filter_append_of_pairwise (q := fun row => !(compare row.order span.through.order).isGT)
      (hpair.imp fun {a b} hab hq => ?_)
    · rw [hold] at hsplit
      have hreach := List.takeWhile_append_dropWhile (p := fun row => !span.covers row) (l := reach rows agentId sessionId span)
      obtain ⟨before, hskip⟩ := @readRows_skip span maxChars { before := span.start }
        (left.filter fun row => !!(compare row.order span.through.order).isGT)
        (fun row hrow => by simpa using (List.mem_filter.mp hrow).2) (reach rows agentId sessionId span)
      rw [hsplit] at hskip
      show (readRows span maxChars { before := span.start } left).1.newestFirst = _
      rw [hskip]
      conv_lhs => rw [← hreach]
      rw [readRows_fill]
      · rfl
      · intro row hrow
        rw [hreach] at hrow
        exact (mem_reach.mp hrow).2
      · intro row hrow
        have := List.mem_takeWhile_imp hrow
        rwa [Bool.not_eq_true'] at this
      · intro row hrow
        have := List.head?_dropWhile_not (fun row => !span.covers row) (reach rows agentId sessionId span)
        rw [hrow] at this
        simpa using this
    · -- what is older than a row up to the mark is up to the mark
      rw [Ordering.isLT_iff_eq_lt] at hab
      have hlt : compare b.order a.order = .lt := hab
      rw [Bool.not_eq_true'] at hq ⊢
      have hle : (compare a.order span.through.order).isLE = true := by
        cases hcmp : compare a.order span.through.order
        · rfl
        · rfl
        · rw [hcmp] at hq
          cases hq
      have hb : compare b.order span.through.order = .lt := Std.TransCmp.lt_of_lt_of_isLE hlt hle
      rw [hb]
      rfl

end

/-! ## What the model sees -/

/-- Each message with the one before it, the first one with `previous`. -/
def pairs (previous : Option Message) (room : List Message) : List (Option Message × Message) :=
  (previous :: room.map some).zip room

/-- The message, if it is kept beside the one before it. -/
def shown (hidden : List String) (pair : Option Message × Message) : Option Message :=
  let revisionRequest := pair.2.role == .system && pair.1.any isRevisedDraft
  if hidden.contains pair.2.id || isRevisedDraft pair.2 || revisionRequest then none else some pair.2

theorem modelVisible_eq (room : List Message) : modelVisible room = (pairs none room).filterMap (shown (hiddenMessageIds room)) :=
  rfl

theorem pairs_append (previous : Option Message) (xs ys : List Message) :
    ∃ last, pairs previous (xs ++ ys) = pairs previous xs ++ pairs last ys := by
  induction xs generalizing previous with
  | nil => exact ⟨previous, rfl⟩
  | cons x xs ih =>
    obtain ⟨last, hlast⟩ := ih (some x)
    exact ⟨last, congrArg ((previous, x) :: ·) hlast⟩

theorem snd_mem_of_mem_pairs {previous : Option Message} {room : List Message} {pair : Option Message × Message}
    (h : pair ∈ pairs previous room) : pair.2 ∈ room := (List.of_mem_zip h).2

theorem filterMap_shown_congr {l : List (Option Message × Message)} {hidden hidden' : List String}
    (h : ∀ pair ∈ l, pair.2.id ∈ hidden ↔ pair.2.id ∈ hidden') : l.filterMap (shown hidden) = l.filterMap (shown hidden') := by
  refine List.filterMap_congr fun pair hpair => ?_
  have hcontains : hidden.contains pair.2.id = hidden'.contains pair.2.id := by
    rw [Bool.eq_iff_iff, List.contains_iff_mem, List.contains_iff_mem]
    exact h pair hpair
  unfold shown
  rw [hcontains]

theorem filterMap_pairs_start {room : List Message} (hstart : room.head?.any startsTurn = true) (hidden : List String)
    (previous previous' : Option Message) :
    (pairs previous room).filterMap (shown hidden) = (pairs previous' room).filterMap (shown hidden) := by
  rcases room with _ | ⟨message, room⟩
  · rfl
  · have huser : message.role = .user := by simpa [startsTurn] using hstart
    have hfirst : shown hidden (previous, message) = shown hidden (previous', message) := by
      unfold shown
      rw [huser]
      rfl
    show ((previous, message) :: pairs (some message) room).filterMap _ = ((previous', message) :: pairs (some message) room).filterMap _
    rw [List.filterMap_cons, List.filterMap_cons, hfirst]

theorem mem_hidden_append {older read : List Message} (hids : Distinct (older ++ read)) (hstart : read.head?.any startsTurn = true) :
    (∀ x ∈ older, x.id ∈ hiddenMessageIds (older ++ read) ↔ x.id ∈ hiddenMessageIds older) ∧
      ∀ x ∈ read, x.id ∈ hiddenMessageIds (older ++ read) ↔ x.id ∈ hiddenMessageIds read := by
  have hnone : beforeTurns read = [] := by
    unfold beforeTurns
    rw [segments_fst]
    rcases read with _ | ⟨u, read⟩
    · cases hstart
    · rw [List.takeWhile_cons_of_neg]
      rw [Bool.not_eq_true', Bool.not_eq_false]
      simpa using hstart
  have hread : (turns read).flatten = read := by
    have := turns_join read
    rwa [hnone, List.nil_append] at this
  have hturns : ∀ turn ∈ turns read, Turn turn := fun turn => turn_of_mem
  have hbefore : beforeTurns (older ++ (turns read).flatten) = beforeTurns older := (turns_append hturns).1
  have hall : turns (older ++ (turns read).flatten) = turns older ++ turns read := (turns_append hturns).2
  rw [hread] at hbefore hall
  have holder : Distinct older := hids.sublist (List.sublist_append_left older read)
  have hreadIds : Distinct read := hids.sublist (List.sublist_append_right older read)
  constructor
  · intro x hx
    rw [← turns_join older] at hx
    rcases List.mem_append.mp hx with hx | hx
    · rw [mem_hidden_before holder hx, mem_hidden_before hids (by rw [hbefore]; exact hx), hbefore]
    · obtain ⟨turn, hturn, hxturn⟩ := List.mem_flatten.mp hx
      rw [mem_hidden_turn holder hturn hxturn,
        mem_hidden_turn hids (by rw [hall]; exact List.mem_append_left _ hturn) hxturn]
  · intro x hx
    rw [← hread] at hx
    obtain ⟨turn, hturn, hxturn⟩ := List.mem_flatten.mp hx
    rw [mem_hidden_turn hreadIds hturn hxturn,
      mem_hidden_turn hids (by rw [hall]; exact List.mem_append_right _ hturn) hxturn]

theorem modelVisible_append {older read : List Message} (hids : Distinct (older ++ read))
    (hstart : older = [] ∨ read.head?.any startsTurn = true) :
    modelVisible (older ++ read) = modelVisible older ++ modelVisible read := by
  rcases hstart with rfl | hstart
  · rfl
  · obtain ⟨hold, hread⟩ := mem_hidden_append hids hstart
    obtain ⟨last, hpairs⟩ := pairs_append none older read
    rw [modelVisible_eq, modelVisible_eq, modelVisible_eq, hpairs, List.filterMap_append]
    congr 1
    · exact filterMap_shown_congr fun pair hpair => hold _ (snd_mem_of_mem_pairs hpair)
    · rw [filterMap_shown_congr fun pair hpair => hread _ (snd_mem_of_mem_pairs hpair)]
      exact filterMap_pairs_start hstart _ _ _

/-! ## Older messages in a transcript -/

theorem size_map_transcriptLine (messages : List Message) : size (messages.map transcriptLine) = chars messages := by
  unfold size chars
  rw [List.map_map]
  refine congrArg List.sum (List.map_congr_left fun message _ => ?_)
  exact (transcriptChars_eq message).symm

theorem size_reverse (blocks : List Text) : size blocks.reverse = size blocks := by
  unfold size
  rw [List.map_reverse, List.sum_reverse]

theorem size_cons (block : Text) (blocks : List Text) : size (block :: blocks) = block.length + 1 + size blocks := by
  unfold size
  rw [List.map_cons, List.sum_cons]

theorem keepLines_cons (maxChars : ℕ) (line : Text) (older kept : List Text) (used : ℕ) :
    keepLines maxChars (line :: older) kept used =
      if maxChars < used + (line.length + 1) then
        if kept = [] ∨ messageTruncation.length + 32 < maxChars - used then kept ++ [shorten line (maxChars - used)] else kept
      else keepLines maxChars older (kept ++ [line]) (used + (line.length + 1)) := rfl

theorem keepLines_append (xs ys kept : List Text) (used : ℕ) (hused : used ≤ maxChars) :
    keepLines maxChars (xs ++ ys) kept used =
      if maxChars < used + size xs then keepLines maxChars xs kept used
      else keepLines maxChars ys (kept ++ xs) (used + size xs) := by
  induction xs generalizing kept used with
  | nil =>
    have hzero : size [] = 0 := rfl
    rw [hzero, if_neg (by omega), List.append_nil]
    rfl
  | cons line xs ih =>
    rw [List.cons_append, size_cons, keepLines_cons, keepLines_cons]
    by_cases hline : maxChars < used + (line.length + 1)
    · have hover : maxChars < used + (line.length + 1 + size xs) := by omega
      rw [if_pos hline, if_pos hline, if_pos hover]
    · rw [if_neg hline, if_neg hline, ih _ _ (by omega), List.append_assoc, List.singleton_append, Nat.add_assoc used]

theorem join_append_eq_iff (more kept : List Text) :
    ['\n'].intercalate (more ++ kept) = ['\n'].intercalate kept ↔ more = [] ∨ (kept = [] ∧ more = [[]]) := by
  constructor
  · intro heq
    by_contra hnot
    rw [not_or] at hnot
    obtain ⟨block, rest, rfl⟩ := List.exists_cons_of_ne_nil hnot.1
    have hmore : (['\n'].intercalate (block :: rest ++ kept)).length + 1 = block.length + 1 + (size rest + size kept) := by
      rw [← size_append, ← size_cons]
      exact length_intercalate_singleton '\n' (by simp)
    rw [heq] at hmore
    rcases eq_or_ne kept [] with rfl | hne
    · rw [List.intercalate_nil, List.length_nil] at hmore
      have hblock : block = [] := List.length_eq_zero_iff.mp (by omega)
      have hrest : rest = [] := by
        rcases rest with _ | ⟨b, rest⟩
        · rfl
        · rw [size_cons] at hmore
          omega
      exact hnot.2 ⟨rfl, by rw [hblock, hrest]⟩
    · have hkept : (['\n'].intercalate kept).length + 1 = size kept := length_intercalate_singleton '\n' hne
      omega
  · rintro (rfl | ⟨rfl, rfl⟩)
    · rw [List.nil_append]
    · rfl

theorem shorten_eq_nil_iff (line : Text) (remaining : ℕ) (h : remaining ≤ line.length) : shorten line remaining = [] ↔ remaining = 0 := by
  have hmark : 0 < messageTruncation.length := by
    unfold messageTruncation
    simp
  have hlen : (shorten line remaining).length = remaining := by
    unfold shorten
    rw [List.length_append, List.length_take, List.length_take]
    omega
  rw [← List.length_eq_zero_iff, hlen]

theorem transcript_eq (messages : List Message) (maxChars : ℕ) :
    transcript messages maxChars = ['\n'].intercalate (keepLines maxChars (messages.map transcriptLine).reverse [] 0).reverse := rfl

/-- No room is left for a message that does not fit as a whole. -/
def NoRoom (maxChars : ℕ) (older newer : List Message) : Prop :=
  newer ≠ [] ∧ maxChars - chars newer ≤ messageTruncation.length + 32 ∧
    ∀ message ∈ older.getLast?, maxChars < chars newer + transcriptChars message

/-- **When older messages make no difference** to a transcript: there are none, nothing may be shown, the newer ones fill it, or
the rest is too short for a part of the next. -/
theorem transcript_append_iff (older newer : List Message) (maxChars : ℕ) :
    transcript (older ++ newer) maxChars = transcript newer maxChars ↔
      older = [] ∨ maxChars = 0 ∨ maxChars < chars newer ∨ NoRoom maxChars older newer := by
  have hsize : size (newer.map transcriptLine).reverse = chars newer := by rw [size_reverse, size_map_transcriptLine]
  rw [transcript_eq, transcript_eq, List.map_append, List.reverse_append, keepLines_append _ _ _ _ (Nat.zero_le _), Nat.zero_add,
    hsize, List.nil_append]
  by_cases hfull : maxChars < chars newer
  · rw [if_pos hfull]
    exact ⟨fun _ => .inr (.inr (.inl hfull)), fun _ => rfl⟩
  rw [if_neg hfull]
  have hnewer : keepLines maxChars (newer.map transcriptLine).reverse [] 0 = (newer.map transcriptLine).reverse := by
    have := @keepLines_append maxChars (newer.map transcriptLine).reverse [] [] 0 (Nat.zero_le _)
    rw [List.append_nil, hsize, Nat.zero_add, if_neg hfull] at this
    exact this
  rw [hnewer]
  rcases List.eq_nil_or_concat older with rfl | ⟨front, message, rfl⟩
  · exact ⟨fun _ => .inl rfl, fun _ => rfl⟩
  rw [List.concat_eq_append]
  have hlines : ((front ++ [message]).map transcriptLine).reverse = transcriptLine message :: (front.map transcriptLine).reverse := by
    rw [List.map_append, List.reverse_append]
    rfl
  have hempty : (newer.map transcriptLine).reverse = [] ↔ newer = [] := by
    rw [List.reverse_eq_nil_iff, List.map_eq_nil_iff]
  have hchars := transcriptChars_eq message
  have hlast : ((front ++ [message]).getLast?) = some message := List.getLast?_concat
  rw [hlines, keepLines_cons, ← hchars]
  by_cases hover : maxChars < chars newer + transcriptChars message
  · rw [if_pos hover]
    by_cases hroom : (newer.map transcriptLine).reverse = [] ∨ messageTruncation.length + 32 < maxChars - chars newer
    · -- a part of the message is shown
      rw [if_pos hroom, List.reverse_append, List.reverse_singleton, join_append_eq_iff, List.reverse_eq_nil_iff, hempty]
      constructor
      · rintro (hnil | ⟨rfl, hnil⟩)
        · cases hnil
        · have hshort := (List.cons.inj hnil).1
          rw [shorten_eq_nil_iff _ _ (by omega)] at hshort
          have hzero : chars [] = 0 := rfl
          exact .inr (.inl (by omega))
      · rintro (hnil | hzero | hlt | ⟨hne, hshort, -⟩)
        · exact absurd hnil (by simp)
        · rcases hroom with hnil | hlong
          · have hnewerNil := hempty.mp hnil
            refine .inr ⟨hnewerNil, ?_⟩
            rw [(shorten_eq_nil_iff _ _ (by omega)).mpr (by omega)]
          · omega
        · exact absurd hlt hfull
        · rcases hroom with hnil | hlong
          · exact absurd (hempty.mp hnil) hne
          · omega
    · rw [if_neg hroom]
      rw [not_or, hempty] at hroom
      refine ⟨fun _ => .inr (.inr (.inr ⟨hroom.1, by omega, fun m hm => ?_⟩)), fun _ => rfl⟩
      rw [hlast] at hm
      obtain rfl := Option.some.inj hm
      exact hover
  · -- the whole message is shown
    rw [if_neg hover]
    obtain ⟨more, hmore⟩ : ∃ more, keepLines maxChars (front.map transcriptLine).reverse
        ((newer.map transcriptLine).reverse ++ [transcriptLine message]) (chars newer + transcriptChars message) =
        (newer.map transcriptLine).reverse ++ ([transcriptLine message] ++ more) := by
      obtain ⟨taken, rest, -, hkeep | ⟨line, olderLines, -, hkeep, -⟩⟩ := keepLines_spec maxChars (front.map transcriptLine).reverse
        ((newer.map transcriptLine).reverse ++ [transcriptLine message]) (chars newer + transcriptChars message)
        (by rw [size_append, hsize, size_singleton, hchars]) (by omega)
      · exact ⟨taken, by rw [hkeep.1, List.append_assoc]⟩
      · refine ⟨taken ++ [shorten line (maxChars -
          size ((newer.map transcriptLine).reverse ++ [transcriptLine message] ++ taken))], ?_⟩
        rw [hkeep, List.append_assoc, List.append_assoc]
    rw [hmore, List.reverse_append, join_append_eq_iff, List.reverse_eq_nil_iff, List.reverse_eq_nil_iff, hempty]
    constructor
    · rintro (hnil | ⟨-, hone⟩)
      · exact absurd hnil (by simp)
      · rw [List.reverse_append, List.reverse_singleton] at hone
        have hline : transcriptLine message = [] := by
          rcases hrev : more.reverse with _ | ⟨b, bs⟩
          · rw [hrev] at hone
            exact (List.cons.inj hone).1
          · have := congrArg List.length hone
            rw [hrev] at this
            simp at this
        have := label_starts message
        rw [hline, List.prefix_nil] at this
        unfold label at this
        simp at this
    · rintro (hnil | hzero | hlt | ⟨-, -, hall⟩)
      · exact absurd hnil (by simp)
      · omega
      · exact absurd hlt hfull
      · exact absurd (hall message hlast) hover

/-! ## The read and the span -/

/-- The messages that the pass reads, oldest first. -/
def readableMessages (rows : List HistoryMessage) (agentId sessionId : String) (span : PrunedSpan) : List Message :=
  ((readable rows agentId sessionId span).map HistoryMessage.message).reverse

theorem distinct_readableMessages (h : DistinctIds (sessionRows rows agentId sessionId)) :
    Distinct (readableMessages rows agentId sessionId span) := by
  unfold Distinct readableMessages
  rw [List.map_reverse, List.nodup_reverse, List.map_map]
  have hsorted : DistinctIds (sorted (sessionRows rows agentId sessionId)) := ((List.mergeSort_perm _ _).map _).nodup_iff.mpr h
  exact List.Nodup.sublist (((List.takeWhile_sublist _).trans List.filter_sublist).map _) hsorted

/-- **What the summarizer is shown of the span** is what it would be shown of all its messages iff nothing visible is left out, or
what was read leaves no room for it.  In every case the read ends, and no row is read twice.

`older` and `read` are the messages up to the mark, back to the first covered one, before and from the stop.  A covered message
behind the mark leaves the span empty. -/
theorem pruned_turns_iff (maxChars : ℕ) (h : DistinctIds (sessionRows rows agentId sessionId))
    (hlast : ∀ row ∈ sessionRows rows agentId sessionId, row.message.createdAtMs < 2 ^ 64 - 1) :
    ∃ older read p pages, readableMessages rows agentId sessionId span = older ++ read ∧ StopsAt maxChars older read ∧
      (∀ fuel, (sessionRows rows agentId sessionId).length < fuel →
        readSpan rows agentId sessionId span maxChars fuel = some (p, pages) ∧
        prunedTurns rows agentId sessionId span maxChars fuel = some (modelVisible read)) ∧
      DistinctIds pages.flatten ∧
      (transcript (modelVisible read) maxChars = transcript (modelVisible (spanMessages rows agentId sessionId span)) maxChars ↔
        maxChars = 0 ∨ (CoversMark rows agentId sessionId span ∧ modelVisible read = []) ∨
        (¬CoversMark rows agentId sessionId span ∧ (modelVisible older = [] ∨ maxChars < chars (modelVisible read) ∨
          NoRoom maxChars (modelVisible older) (modelVisible read)))) := by
  have hstart : ∀ row ∈ reach rows agentId sessionId span, (compare row.order span.start).isLT = true := by
    intro row hrow
    obtain ⟨hstored, hold⟩ := mem_reach.mp hrow
    have hms : row.message.createdAtMs ≤ span.through.createdAtMs := by
      by_contra hgt
      have hback : compare span.through.order row.order = .lt := by
        apply compare_lt_of_fst
        exact Nat.compare_eq_lt.mpr (by
          show span.through.createdAtMs < row.message.createdAtMs
          omega)
      have hcmp : compare row.order span.through.order = .gt := Std.OrientedCmp.gt_of_lt hback
      rw [hcmp] at hold
      cases hold
    have hlt := hlast row hstored
    have hcmp : compare row.order span.start = .lt := by
      apply compare_lt_of_fst
      exact Nat.compare_eq_lt.mpr (by
        show row.message.createdAtMs < min (span.through.createdAtMs + 1) (2 ^ 64 - 1)
        omega)
    rw [hcmp]
    rfl
  obtain ⟨p, pages, hread, hpages, hnewest⟩ := @readSpan_eq rows agentId sessionId span maxChars h hstart
  obtain ⟨older, hsplit, hstop⟩ := stopsAt_fill maxChars ((readable rows agentId sessionId span).map HistoryMessage.message)
  set read := (fill maxChars 0 ((readable rows agentId sessionId span).map HistoryMessage.message)).reverse with hreadEq
  have hids : Distinct (older ++ read) := hsplit ▸ distinct_readableMessages h
  refine ⟨older, read, p, pages, hsplit, hstop, fun fuel hfuel => ⟨hread fuel hfuel, ?_⟩, hpages, ?_⟩
  · unfold prunedTurns
    rw [hread fuel hfuel, Option.map_some, hnewest]
  by_cases hmark : CoversMark rows agentId sessionId span
  · rw [spanMessages_of_coversMark hmark]
    have hiff := transcript_append_iff (modelVisible read) [] maxChars
    rw [List.append_nil] at hiff
    have hnil : modelVisible [] = [] := rfl
    rw [hnil, hiff]
    constructor
    · rintro (hempty | hzero | hlt | ⟨hne, -⟩)
      · exact .inr (.inl ⟨hmark, hempty⟩)
      · exact .inl hzero
      · exact absurd hlt (Nat.not_lt_zero _)
      · exact absurd rfl hne
    · rintro (hzero | ⟨-, hempty⟩ | ⟨hnot, -⟩)
      · exact .inr (.inl hzero)
      · exact .inl hempty
      · exact absurd hmark hnot
  · have hspan : spanMessages rows agentId sessionId span = older ++ read := by
      rw [← hsplit, readable_eq h hmark, ← List.map_reverse]
      rfl
    rw [hspan, modelVisible_append hids (hstop.reached.imp_right And.left), eq_comm, transcript_append_iff]
    constructor
    · rintro (hempty | hzero | hrest)
      · exact .inr (.inr ⟨hmark, .inl hempty⟩)
      · exact .inl hzero
      · exact .inr (.inr ⟨hmark, .inr hrest⟩)
    · rintro (hzero | ⟨hyes, -⟩ | ⟨-, hempty | hrest⟩)
      · exact .inr (.inl hzero)
      · exact absurd hyes hmark
      · exact .inl hempty
      · exact .inr (.inr hrest)

namespace Sample

def row (id : String) (role : MessageRole) (text : String) (metadata : Option DataFields) (createdAtMs : ℕ) : HistoryMessage :=
  ⟨"agent", "chat", false, ⟨id, "agent", "chat", ⟨text, none, metadata⟩, role, createdAtMs⟩⟩

/-- Two visible turns with a silent check-in between them, newest first. -/
def checkinRows : List HistoryMessage :=
  [row "a3" .assistant "Soon" none 60, row "u3" .user "When" none 50, row "c2" .assistant "CHECKIN_OK" none 40,
    row "c1" .user "Anything new" (some (.cons "kind" (.string "checkin") .nil)) 30, row "a1" .assistant "Booked" none 20,
    row "u1" .user "Book it" none 10]

/-- Everything up to the newest message; no summary yet. -/
def wholeSpan : PrunedSpan := ⟨⟨"a3", 60⟩, none, none⟩

theorem distinct_checkinRows : DistinctIds (sessionRows checkinRows "agent" "chat") := by
  unfold DistinctIds
  decide +kernel

theorem pruned_turns_iff_checkin : ∃ older read, readableMessages checkinRows "agent" "chat" wholeSpan = older ++ read ∧
    StopsAt 64 older read ∧ prunedTurns checkinRows "agent" "chat" wholeSpan 64 7 = some (modelVisible read) := by
  obtain ⟨older, read, p, pages, hsplit, hstop, hread, -⟩ :=
    @pruned_turns_iff checkinRows "agent" "chat" wholeSpan 64 distinct_checkinRows (by decide +kernel)
  exact ⟨older, read, hsplit, hstop, (hread 7 (by decide +kernel)).2⟩

theorem sorted_checkinRows : sorted (sessionRows checkinRows "agent" "chat") = checkinRows := by
  have hsession : sessionRows checkinRows "agent" "chat" = checkinRows := by decide +kernel
  rw [hsession]
  exact List.mergeSort_of_pairwise (by decide +kernel)

/-- The silent check-in ends the read: the first turn is not shown, though it would fit. -/
theorem silent_turn_ends_the_read : ∃ turns, prunedTurns checkinRows "agent" "chat" wholeSpan 64 7 = some turns ∧
    turns.map (·.id) = ["u3", "a3"] ∧
    (modelVisible (spanMessages checkinRows "agent" "chat" wholeSpan)).map (·.id) = ["u1", "a1", "u3", "a3"] ∧
    transcript turns 64 ≠ transcript (modelVisible (spanMessages checkinRows "agent" "chat" wholeSpan)) 64 := by
  have hspan : spanMessages checkinRows "agent" "chat" wholeSpan = (checkinRows.map HistoryMessage.message).reverse := by
    unfold spanMessages
    dsimp only
    rw [sorted_filter distinct_checkinRows, sorted_checkinRows]
    decide +kernel
  have hread : prunedTurns checkinRows "agent" "chat" wholeSpan 64 7 =
      some (modelVisible ((checkinRows.take 4).map HistoryMessage.message).reverse) := by
    unfold prunedTurns readSpan readPages
    rw [pageMessages_eq distinct_checkinRows, sorted_checkinRows]
    decide +kernel
  refine ⟨_, hread, by decide +kernel, ?_, ?_⟩
  · rw [hspan]
    decide +kernel
  · rw [hspan]
    decide +kernel

end Sample

end AnimaCore.Compaction
