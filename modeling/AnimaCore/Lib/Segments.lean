import Mathlib

/-!
# AnimaCore.Lib.Segments — cutting a list where marked elements stand

* `segments mark l`: what stands before the first marked element, and the pieces that begin with one.  The list is these pieces in
  order (`segments_join`), and a list that is put together from such pieces is cut into them again (`segments_eq`).
* `starts mark l`: the positions of the marked elements; `slices_starts`: cutting at the positions gives the pieces.
* `zip_starts`: each start with the next gives the spans of the pieces.
* `find_last_start`: the last position that is not beyond a place is that of the piece which holds the place.
-/

namespace AnimaCore.Lib

variable {α : Type} (mark : α → Bool)

/-- What stands before the first mark, and the pieces that begin with one. -/
def segments : List α → List α × List (List α)
  | [] => ([], [])
  | a :: l =>
    if mark a then ([], (a :: (segments l).1) :: (segments l).2) else (a :: (segments l).1, (segments l).2)

def Segment (s : List α) : Prop := ∃ a rest, s = a :: rest ∧ mark a = true ∧ ∀ b ∈ rest, mark b = false

def starts (l : List α) : List ℕ := (l.zipIdx.filter fun e => mark e.1).map Prod.snd

variable {mark}

theorem segments_join (l : List α) : (segments mark l).1 ++ (segments mark l).2.flatten = l := by
  induction l with
  | nil => rfl
  | cons a l ih =>
    unfold segments
    split_ifs
    · simpa using ih
    · simpa using ih

theorem mark_of_mem_fst (l : List α) : ∀ a ∈ (segments mark l).1, mark a = false := by
  induction l with
  | nil => simp [segments]
  | cons b l ih =>
    unfold segments
    split_ifs with hb
    · simp
    · intro a ha
      rcases List.mem_cons.mp ha with rfl | ha
      · simpa using hb
      · exact ih a ha

theorem segment_of_mem (l : List α) : ∀ s ∈ (segments mark l).2, Segment mark s := by
  induction l with
  | nil => simp [segments]
  | cons b l ih =>
    unfold segments
    split_ifs with hb
    · intro s hs
      rcases List.mem_cons.mp hs with rfl | hs
      · exact ⟨b, _, rfl, hb, mark_of_mem_fst l⟩
      · exact ih s hs
    · exact ih

theorem segments_append_of_unmarked {pre : List α} (hpre : ∀ a ∈ pre, mark a = false) (l : List α) :
    segments mark (pre ++ l) = (pre ++ (segments mark l).1, (segments mark l).2) := by
  induction pre with
  | nil => rfl
  | cons a pre ih =>
    have ha : mark a = false := hpre a List.mem_cons_self
    rw [List.cons_append, segments, ih fun b hb => hpre b (List.mem_cons_of_mem _ hb)]
    simp [ha]

theorem segments_append_segment {s : List α} (hs : Segment mark s) {l : List α} (hl : (segments mark l).1 = []) :
    segments mark (s ++ l) = ([], s :: (segments mark l).2) := by
  obtain ⟨a, rest, rfl, ha, hrest⟩ := hs
  rw [List.cons_append, segments, segments_append_of_unmarked hrest]
  simp [ha, hl]

/-- **A list is cut into the pieces it is put together from.** -/
theorem segments_eq {pre : List α} {segs : List (List α)} (hpre : ∀ a ∈ pre, mark a = false)
    (hsegs : ∀ s ∈ segs, Segment mark s) : segments mark (pre ++ segs.flatten) = (pre, segs) := by
  have hflat : segments mark segs.flatten = ([], segs) := by
    induction segs with
    | nil => rfl
    | cons s segs ih =>
      have ih := ih fun t ht => hsegs t (List.mem_cons_of_mem _ ht)
      rw [List.flatten_cons, segments_append_segment (hsegs s List.mem_cons_self) (by rw [ih]), ih]
  rw [segments_append_of_unmarked hpre, hflat]
  simp

/-! ## Positions -/

theorem starts_cons (a : α) (l : List α) :
    starts mark (a :: l) = (if mark a then [0] else []) ++ (starts mark l).map (· + 1) := by
  unfold starts
  rw [List.zipIdx_cons', List.filter_cons]
  split_ifs
  · simp [List.filter_map, Function.comp_def]
  · simp [List.filter_map, Function.comp_def]

theorem starts_append (l r : List α) : starts mark (l ++ r) = starts mark l ++ (starts mark r).map (· + l.length) := by
  induction l with
  | nil => simp [starts]
  | cons a l ih =>
    rw [List.cons_append, starts_cons, starts_cons, ih]
    simp [Function.comp_def, Nat.add_assoc]

theorem starts_of_unmarked {l : List α} (h : ∀ a ∈ l, mark a = false) : starts mark l = [] := by
  induction l with
  | nil => rfl
  | cons a l ih =>
    rw [starts_cons, ih fun b hb => h b (List.mem_cons_of_mem _ hb), h a List.mem_cons_self]
    simp

theorem starts_segment {s : List α} (hs : Segment mark s) : starts mark s = [0] := by
  obtain ⟨a, rest, rfl, ha, hrest⟩ := hs
  rw [starts_cons, starts_of_unmarked hrest, ha]
  simp

theorem slices_starts (l : List α) :
    l.take ((starts mark l).head?.getD l.length) = (segments mark l).1 ∧
    ((starts mark l).zip ((starts mark l).tail ++ [l.length])).map (fun e => (l.drop e.1).take (e.2 - e.1)) =
      (segments mark l).2 := by
  induction l with
  | nil => simp [starts, segments]
  | cons a l ih =>
    obtain ⟨ih1, ih2⟩ := ih
    have hhead : ((starts mark l).map (· + 1)).head?.getD (l.length + 1) = (starts mark l).head?.getD l.length + 1 := by
      rcases starts mark l with _ | ⟨h, rest⟩
      · rfl
      · rfl
    have hshift : (((starts mark l).map (· + 1)).zip (((starts mark l).map (· + 1)).tail ++ [l.length + 1])).map
        (fun e => ((a :: l).drop e.1).take (e.2 - e.1)) = (segments mark l).2 := by
      have hpair : ((starts mark l).map (· + 1)).zip (((starts mark l).map (· + 1)).tail ++ [l.length + 1]) =
          ((starts mark l).zip ((starts mark l).tail ++ [l.length])).map (Prod.map (· + 1) (· + 1)) := by
        rw [← List.zip_map]
        congr 1
        rw [List.map_append, List.map_tail]
        rfl
      rw [hpair, List.map_map, ← ih2]
      refine List.map_congr_left fun e _ => ?_
      simp [Nat.add_sub_add_right]
    rw [starts_cons, segments]
    split_ifs with ha
    · refine ⟨by simp, ?_⟩
      have hzip : ([0] ++ (starts mark l).map (· + 1)).zip (([0] ++ (starts mark l).map (· + 1)).tail ++ [l.length + 1]) =
          (0, ((starts mark l).map (· + 1)).head?.getD (l.length + 1)) ::
            ((starts mark l).map (· + 1)).zip (((starts mark l).map (· + 1)).tail ++ [l.length + 1]) := by
        rcases starts mark l with _ | ⟨h, rest⟩
        · rfl
        · rfl
      rw [List.length_cons, hzip, List.map_cons, hshift, hhead]
      simp [ih1]
    · rw [List.nil_append, List.length_cons, hhead]
      refine ⟨?_, hshift⟩
      rw [List.take_succ_cons, ih1]

/-- Where each piece begins and ends, the first at `o`. -/
def spans (o : ℕ) : List (List α) → List (ℕ × ℕ)
  | [] => []
  | s :: segs => (o, o + s.length) :: spans (o + s.length) segs

theorem spans_concat (o : ℕ) (segs : List (List α)) (s : List α) :
    spans o (segs ++ [s]) =
      spans o segs ++ [(o + segs.flatten.length, o + segs.flatten.length + s.length)] := by
  induction segs generalizing o with
  | nil => simp [spans]
  | cons t segs ih =>
    rw [List.cons_append, spans, ih, spans, List.flatten_cons, List.length_append, ← Nat.add_assoc, List.cons_append]

theorem starts_flatten {segs : List (List α)} (hsegs : ∀ s ∈ segs, Segment mark s) (pre : List α)
    (hpre : ∀ a ∈ pre, mark a = false) : starts mark (pre ++ segs.flatten) = (spans pre.length segs).map Prod.fst := by
  induction segs using List.reverseRecOn with
  | nil => simp [spans, starts_of_unmarked hpre]
  | append_singleton segs s ih =>
    have ih := ih fun t ht => hsegs t (List.mem_append_left _ ht)
    have hs : Segment mark s := hsegs s (by simp)
    rw [List.flatten_append, List.flatten_singleton, ← List.append_assoc, starts_append, ih, starts_segment hs, spans_concat]
    simp

theorem zip_starts {segs : List (List α)} (hsegs : ∀ s ∈ segs, Segment mark s) (pre : List α)
    (hpre : ∀ a ∈ pre, mark a = false) :
    (starts mark (pre ++ segs.flatten)).zip ((starts mark (pre ++ segs.flatten)).tail ++ [(pre ++ segs.flatten).length]) =
      spans pre.length segs := by
  have hzip : ∀ (o : ℕ) (segs : List (List α)),
      ((spans o segs).map Prod.fst).zip (((spans o segs).map Prod.fst).tail ++ [o + segs.flatten.length]) = spans o segs := by
    intro o segs
    induction segs generalizing o with
    | nil => rfl
    | cons s segs ih =>
      have ih := ih (o + s.length)
      rw [spans, List.map_cons, List.tail_cons, List.flatten_cons, List.length_append, ← Nat.add_assoc]
      cases segs with
      | nil => simp [spans]
      | cons t segs =>
        rw [spans, List.map_cons] at ih ⊢
        rw [List.cons_append, List.zip_cons_cons]
        rw [List.tail_cons] at ih
        rw [ih]
  rw [starts_flatten hsegs pre hpre, List.length_append]
  exact hzip pre.length segs

theorem segments_fst (l : List α) : (segments mark l).1 = l.takeWhile fun a => !mark a := by
  induction l with
  | nil => rfl
  | cons a l ih =>
    unfold segments
    split_ifs with ha
    · simp [ha]
    · simp [ha, ih]

theorem head?_starts (l : List α) :
    (starts mark l).head? = (segments mark l).2.head?.map fun _ => (segments mark l).1.length := by
  have hstarts := starts_flatten (segment_of_mem l) (segments mark l).1 (mark_of_mem_fst l)
  rw [segments_join] at hstarts
  rw [hstarts]
  cases (segments mark l).2 with
  | nil => rfl
  | cons s segs => rfl

theorem segment_suffix {s : List α} (hs : Segment mark s) {pre x : List α} (hx : x <:+ pre ++ s) {a : α}
    (hhead : x.head? = some a) (hmark : mark a = true) : s <:+ x := by
  have hsx : s <:+ pre ++ s := List.suffix_append pre s
  rcases List.suffix_or_suffix_of_suffix hx hsx with hin | hin
  · obtain ⟨b, rest, rfl, -, hrest⟩ := hs
    rcases List.suffix_cons_iff.mp hin with rfl | hin
    · exact List.suffix_rfl
    · have hmem : a ∈ rest := hin.subset (List.mem_of_mem_head? hhead)
      rw [hrest a hmem] at hmark
      exact absurd hmark (by decide)
  · exact hin

/-- **The last position that is not beyond a place** is that of the piece which holds it. -/
theorem find_last_start {before s after : List α} (hs : Segment mark s) {edge : ℕ} (hlow : before.length ≤ edge)
    (hhigh : edge < before.length + s.length) :
    ((starts mark (before ++ s ++ after)).reverse.find? (· ≤ edge)) = some before.length := by
  rw [starts_append, starts_append, starts_segment hs]
  simp only [List.reverse_append, List.find?_append, List.map_cons, List.map_nil, Nat.zero_add, List.reverse_cons,
    List.reverse_nil, List.nil_append]
  have hnone : ((starts mark after).map (· + (before ++ s).length)).reverse.find? (· ≤ edge) = none := by
    rw [List.find?_eq_none]
    intro x hx
    rw [List.mem_reverse, List.mem_map] at hx
    obtain ⟨y, -, rfl⟩ := hx
    simp only [List.length_append, decide_eq_true_eq]
    omega
  rw [hnone]
  simp [hlow]

theorem find_last_start_of_unmarked {before after : List α} (hbefore : ∀ a ∈ before, mark a = false) {edge : ℕ}
    (hedge : edge < before.length) : ((starts mark (before ++ after)).reverse.find? (· ≤ edge)) = none := by
  rw [starts_append, starts_of_unmarked hbefore, List.find?_eq_none]
  intro x hx
  rw [List.nil_append, List.mem_reverse, List.mem_map] at hx
  obtain ⟨y, -, rfl⟩ := hx
  simp only [decide_eq_true_eq]
  omega

end AnimaCore.Lib
