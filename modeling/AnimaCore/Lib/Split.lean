import Mathlib

/-!
# AnimaCore.Lib.Split — a text and its pieces

The pieces of `List.splitOnP`, beside what the library has: an induction over them, and what comes back when they are
joined.

* `split_induction`: a text without a separator, or one piece, a separator and a text.
* `splitOnP_intercalate`: pieces without a separator come back when their join is split; `splitOnP_intercalate_flatMap`: other
  parts are split further.
* `length_intercalate_filter_le`: dropping empty pieces makes the join no longer.
-/

namespace AnimaCore.Lib

variable {α : Type} {p : α → Bool}

theorem split_induction {motive : List α → Prop} (piece : ∀ x, (∀ c ∈ x, p c = false) → motive x)
    (more : ∀ x c y, (∀ d ∈ x, p d = false) → p c = true → motive y → motive (x ++ c :: y)) (text : List α) :
    motive text := by
  induction hn : text.length using Nat.strong_induction_on generalizing text with
  | _ n ih =>
    have hfront : ∀ c ∈ text.takeWhile (fun c => !p c), p c = false := fun c hc => by
      simpa using List.mem_takeWhile_imp hc
    have hsplit : text.takeWhile (fun c => !p c) ++ text.dropWhile (fun c => !p c) = text := List.takeWhile_append_dropWhile
    rcases hdrop : text.dropWhile (fun c => !p c) with _ | ⟨c, y⟩
    · rw [hdrop, List.append_nil] at hsplit
      exact piece text (hsplit ▸ hfront)
    · have hc : p c = true := by
        have hhead := List.head?_dropWhile_not (fun c => !p c) text
        rw [hdrop] at hhead
        simpa using hhead
      rw [hdrop] at hsplit
      have hlt : y.length < n := by
        have hlength := congrArg List.length hsplit
        rw [List.length_append, List.length_cons] at hlength
        omega
      rw [← hsplit]
      exact more _ c y hfront hc (ih y.length hlt y rfl)

theorem splitOnP_piece_append {x y : List α} {c : α} (hx : ∀ d ∈ x, p d = false) (hc : p c = true) :
    (x ++ c :: y).splitOnP p = x :: y.splitOnP p := by
  rw [List.splitOnP_append_cons x y hc, List.splitOnP_eq_singleton hx, List.singleton_append]

theorem mem_of_mem_splitOnP {text piece : List α} {c : α} (h : piece ∈ text.splitOnP p) (hc : c ∈ piece) :
    c ∈ text ∧ p c = false := by
  induction text using split_induction (p := p) with
  | piece x hx =>
    rw [List.splitOnP_eq_singleton hx, List.mem_singleton] at h
    subst h
    exact ⟨hc, hx c hc⟩
  | more x d y hx hd ih =>
    rw [splitOnP_piece_append hx hd, List.mem_cons] at h
    rcases h with rfl | h
    · exact ⟨List.mem_append_left _ hc, hx c hc⟩
    · obtain ⟨hmem, hfree⟩ := ih h
      exact ⟨List.mem_append_right _ (List.mem_cons_of_mem d hmem), hfree⟩

theorem splitOnP_intercalate {sep : α} (hsep : p sep = true) {pieces : List (List α)} (hne : pieces ≠ [])
    (hfree : ∀ x ∈ pieces, ∀ c ∈ x, p c = false) : ([sep].intercalate pieces).splitOnP p = pieces := by
  induction pieces with
  | nil => exact absurd rfl hne
  | cons x pieces ih =>
    have hx := hfree x List.mem_cons_self
    rcases pieces with _ | ⟨y, pieces⟩
    · rw [List.intercalate_singleton]
      exact List.splitOnP_eq_singleton hx
    · have htail := ih (by simp) fun z hz => hfree z (List.mem_cons_of_mem x hz)
      rw [List.intercalate_cons_cons, List.append_assoc, List.singleton_append, splitOnP_piece_append hx hsep, htail]

theorem splitOnP_map {f : α → α} (hf : ∀ c, p (f c) = p c) (text : List α) :
    (text.map f).splitOnP p = (text.splitOnP p).map (List.map f) := by
  induction text using split_induction (p := p) with
  | piece x hx =>
    rw [List.splitOnP_eq_singleton hx, List.splitOnP_eq_singleton, List.map_singleton]
    intro c hc
    obtain ⟨d, hd, rfl⟩ := List.mem_map.mp hc
    rw [hf]
    exact hx d hd
  | more x c y hx hc ih =>
    rw [splitOnP_piece_append hx hc, List.map_append, List.map_cons, splitOnP_piece_append, ih, List.map_cons]
    · intro d hd
      obtain ⟨e, he, rfl⟩ := List.mem_map.mp hd
      rw [hf]
      exact hx e he
    · rw [hf]
      exact hc

theorem length_intercalate_filter_le (sep : α) (text : List α) :
    ([sep].intercalate ((text.splitOnP p).filter fun piece => !piece.isEmpty)).length ≤ text.length := by
  induction text using split_induction (p := p) with
  | piece x hx =>
    rw [List.splitOnP_eq_singleton hx]
    by_cases hempty : x = []
    · subst hempty
      simp
    · rw [List.filter_cons_of_pos (by simpa using hempty), List.filter_nil, List.intercalate_singleton]
  | more x c y hx hc ih =>
    rw [splitOnP_piece_append hx hc, List.length_append, List.length_cons]
    by_cases hempty : x = []
    · subst hempty
      rw [List.filter_cons_of_neg (by simp)]
      omega
    · rw [List.filter_cons_of_pos (by simpa using hempty)]
      rcases hrest : (y.splitOnP p).filter (fun piece => !piece.isEmpty) with _ | ⟨z, rest⟩
      · rw [hrest, List.intercalate_singleton]
        omega
      · rw [hrest] at ih
        rw [hrest, List.intercalate_cons_cons, List.append_assoc, List.length_append, List.length_append, List.length_singleton]
        omega

theorem splitOnP_intercalate_flatMap {sep : α} (hsep : p sep = true) {parts : List (List α)} (hne : parts ≠ []) :
    ([sep].intercalate parts).splitOnP p = parts.flatMap (List.splitOnP p) := by
  induction parts with
  | nil => exact absurd rfl hne
  | cons x parts ih =>
    rcases parts with _ | ⟨y, parts⟩
    · rw [List.intercalate_singleton, List.flatMap_singleton]
    · have htail := ih (by simp)
      rw [List.intercalate_cons_cons, List.append_assoc, List.singleton_append, List.splitOnP_append_cons x _ hsep, htail]
      exact (List.flatMap_cons ..).symm

theorem splitOnP_eq_cons (text : List α) :
    text.splitOnP p = text.takeWhile (fun c => !p c) :: (text.splitOnP p).tail := by
  induction text using split_induction (p := p) with
  | piece x hx =>
    have hall : x.takeWhile (fun c => !p c) = x := List.takeWhile_eq_self_iff.mpr fun c hc => by rw [hx c hc]; rfl
    rw [List.splitOnP_eq_singleton hx, hall]
    rfl
  | more x c y hx hc ih =>
    have hall : (x ++ c :: y).takeWhile (fun c => !p c) = x := by
      rw [List.takeWhile_append_of_pos fun c hc => by rw [hx c hc]; rfl, List.takeWhile_cons_of_neg (by rw [hc]; simp),
        List.append_nil]
    rw [splitOnP_piece_append hx hc, hall, List.tail_cons]

theorem length_intercalate_singleton (sep : α) {parts : List (List α)} (hne : parts ≠ []) :
    ([sep].intercalate parts).length + 1 = (parts.map fun x => x.length + 1).sum := by
  induction parts with
  | nil => exact absurd rfl hne
  | cons x parts ih =>
    rcases parts with _ | ⟨y, parts⟩
    · rw [List.intercalate_singleton, List.map_singleton, List.sum_singleton]
    · have htail := ih (by simp)
      rw [List.intercalate_cons_cons, List.length_append, List.length_append, List.length_singleton, List.map_cons,
        List.sum_cons, ← htail]
      omega

theorem mem_intercalate {sep : List α} {words : List (List α)} {c : α} (h : c ∈ sep.intercalate words) :
    c ∈ sep ∨ ∃ word ∈ words, c ∈ word := by
  induction words with
  | nil => cases h
  | cons word words ih =>
    rcases words with _ | ⟨next, words⟩
    · rw [List.intercalate_singleton] at h
      exact .inr ⟨word, List.mem_cons_self, h⟩
    · rw [List.intercalate_cons_cons] at h
      rcases List.mem_append.mp h with h | h
      · rcases List.mem_append.mp h with h | h
        · exact .inr ⟨word, List.mem_cons_self, h⟩
        · exact .inl h
      · rcases ih h with h | ⟨x, hx, h⟩
        · exact .inl h
        · exact .inr ⟨x, List.mem_cons_of_mem word hx, h⟩

theorem head?_intercalate {sep word : List α} {words : List (List α)} (hne : word ≠ []) :
    (sep.intercalate (word :: words)).head? = word.head? := by
  rcases words with _ | ⟨next, words⟩
  · rw [List.intercalate_singleton]
  · rw [List.intercalate_cons_cons, List.append_assoc, List.head?_append_of_ne_nil _ hne]

theorem getLast?_intercalate {sep word : List α} {words : List (List α)} (hlast : words.getLast? = some word)
    (hne : word ≠ []) : (sep.intercalate words).getLast? = word.getLast? := by
  induction words with
  | nil => cases hlast
  | cons first words ih =>
    rcases words with _ | ⟨next, words⟩
    · rw [List.getLast?_singleton, Option.some.injEq] at hlast
      rw [List.intercalate_singleton, hlast]
    · rw [List.getLast?_cons_cons] at hlast
      have htail := ih hlast
      obtain ⟨c, hc⟩ : ∃ c, word.getLast? = some c := ⟨_, List.getLast?_eq_some_getLast hne⟩
      rw [List.intercalate_cons_cons, List.getLast?_append, htail, hc]
      rfl

end AnimaCore.Lib
