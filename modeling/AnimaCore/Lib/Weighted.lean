import Mathlib

/-!
# AnimaCore.Lib.Weighted — lists whose elements have a size, cut by size

A list over `α` is measured by `weight w`, the sum of the sizes of its elements.  A cut at a size is only possible between two
elements.

* `cutAt w l n`: the two parts of `l` where the first has size `n`; `none` where `n` falls inside an element.
* `nextBoundary`: the loop that moves a position on until it falls between two elements.
* `newest w max l`: the longest end of `l` of size at most `max` (`newest_suffix`, `weight_newest_le`, `suffix_newest`).
* `cutAt_nextBoundary`: the loop, started at the excess over `max`, cuts off everything but `newest w max l`.
* `newest_append_of_suffix`: what was cut off before is not missed later, also after more was appended.
-/

namespace AnimaCore.Lib

variable {α : Type} (w : α → ℕ)

def weight (l : List α) : ℕ := (l.map w).sum

/-- The list cut at the position `n`. -/
def cutAt : List α → ℕ → Option (List α × List α)
  | l, 0 => some ([], l)
  | [], _ + 1 => none
  | a :: l, n + 1 =>
    if w a ≤ n + 1 then (cutAt l (n + 1 - w a)).map fun (front, back) => (a :: front, back) else none

/-- `while !boundary(n) { n += 1 }`, at most `fuel` times. -/
def nextBoundary (l : List α) : ℕ → ℕ → ℕ
  | 0, n => n
  | fuel + 1, n => if (cutAt w l n).isSome then n else nextBoundary l fuel (n + 1)

/-- The longest end of size at most `max`. -/
def newest (max : ℕ) : List α → List α
  | [] => []
  | a :: l => if weight w (a :: l) ≤ max then a :: l else newest max l

variable {w} {l l' s d front back : List α} {a : α} {n max fuel : ℕ}

@[simp] theorem weight_nil : weight w [] = 0 := rfl

@[simp] theorem weight_cons : weight w (a :: l) = w a + weight w l := by
  unfold weight
  rw [List.map_cons, List.sum_cons]

@[simp] theorem weight_append : weight w (l ++ l') = weight w l + weight w l' := by
  unfold weight
  rw [List.map_append, List.sum_append]

theorem weight_le_of_suffix (h : s <:+ l) : weight w s ≤ weight w l := by
  obtain ⟨d, rfl⟩ := h
  rw [weight_append]
  omega

/-! ## Cuts -/

theorem cutAt_eq_some (h : cutAt w l n = some (front, back)) : l = front ++ back ∧ weight w front = n := by
  induction l, n using cutAt.induct w generalizing front with
  | case1 l =>
    unfold cutAt at h
    obtain ⟨rfl, rfl⟩ := Prod.mk.inj (Option.some.inj h)
    exact ⟨rfl, rfl⟩
  | case2 n => simp [cutAt] at h
  | case3 a l n ha ih =>
    unfold cutAt at h
    rw [if_pos ha] at h
    obtain ⟨⟨front', back'⟩, hcut, heq⟩ := Option.map_eq_some_iff.mp h
    obtain ⟨rfl, rfl⟩ := Prod.mk.inj heq
    obtain ⟨rfl, hweight⟩ := ih hcut
    rw [weight_cons, hweight]
    exact ⟨rfl, by omega⟩
  | case4 a l n ha =>
    unfold cutAt at h
    rw [if_neg ha] at h
    exact absurd h (by simp)

theorem cutAt_append (hw : ∀ a, 0 < w a) (front back : List α) :
    cutAt w (front ++ back) (weight w front) = some (front, back) := by
  induction front with
  | nil => rw [weight_nil, List.nil_append]; cases back <;> rfl
  | cons a front ih =>
    have hpos := hw a
    obtain ⟨m, hm⟩ : ∃ m, weight w (a :: front) = m + 1 := ⟨weight w (a :: front) - 1, by rw [weight_cons]; omega⟩
    have hrest : m + 1 - w a = weight w front := by rw [← hm, weight_cons]; omega
    rw [hm, List.cons_append]
    unfold cutAt
    rw [if_pos (by rw [← hm, weight_cons]; omega), hrest, ih]
    rfl

theorem nextBoundary_eq (hb : (cutAt w l n).isSome) (m : ℕ) (hm : m ≤ n) (hfuel : n ≤ m + fuel)
    (hfirst : ∀ k, m ≤ k → k < n → (cutAt w l k).isSome = false) : nextBoundary w l fuel m = n := by
  induction fuel generalizing m with
  | zero => unfold nextBoundary; omega
  | succ fuel ih =>
    unfold nextBoundary
    by_cases hmn : m = n
    · subst hmn
      rw [if_pos hb]
    · have hno := hfirst m le_rfl (by omega)
      rw [if_neg (by rw [hno]; simp)]
      exact ih (m + 1) (by omega) (by omega) fun k hk hkn => hfirst k (by omega) hkn

/-! ## The newest part -/

theorem newest_suffix (max : ℕ) (l : List α) : newest w max l <:+ l := by
  induction l with
  | nil => exact List.suffix_rfl
  | cons a l ih =>
    unfold newest
    by_cases h : weight w (a :: l) ≤ max
    · rw [if_pos h]
    · rw [if_neg h]
      exact ih.trans (List.suffix_cons a l)

theorem weight_newest_le (max : ℕ) (l : List α) : weight w (newest w max l) ≤ max := by
  induction l with
  | nil => exact Nat.zero_le max
  | cons a l ih =>
    unfold newest
    by_cases h : weight w (a :: l) ≤ max
    · rw [if_pos h]
      exact h
    · rw [if_neg h]
      exact ih

theorem suffix_newest (hs : s <:+ l) (hmax : weight w s ≤ max) : s <:+ newest w max l := by
  induction l with
  | nil => exact hs
  | cons a l ih =>
    unfold newest
    by_cases h : weight w (a :: l) ≤ max
    · rw [if_pos h]
      exact hs
    · rw [if_neg h]
      rcases List.suffix_cons_iff.mp hs with rfl | hs
      · exact absurd hmax h
      · exact ih hs

theorem newest_eq_self (h : weight w l ≤ max) : newest w max l = l :=
  (newest_suffix max l).eq_of_length_le (suffix_newest List.suffix_rfl h).length_le

theorem newest_append_of_suffix (hs : s <:+ l) (hnew : newest w max l <:+ s) (t : List α) :
    newest w max (s ++ t) = newest w max (l ++ t) := by
  obtain ⟨d, rfl⟩ := hs
  have hle : newest w max (s ++ t) <:+ newest w max (d ++ s ++ t) := by
    apply suffix_newest _ (weight_newest_le max _)
    rw [List.append_assoc]
    exact (newest_suffix max _).trans (List.suffix_append d _)
  have hge : newest w max (d ++ s ++ t) <:+ newest w max (s ++ t) := by
    apply suffix_newest _ (weight_newest_le max _)
    rcases List.suffix_or_suffix_of_suffix (newest_suffix max (d ++ s ++ t)) (List.suffix_append (d ++ s) t) with h | h
    · exact h.trans (List.suffix_append s t)
    · -- the newest part reaches into `d ++ s`: what it has of it is within `max`
      obtain ⟨u, hu⟩ := h
      have hus : u <:+ d ++ s := by
        have hsuf := newest_suffix (w := w) max (d ++ s ++ t)
        rw [← hu] at hsuf
        exact ((List.suffix_append_inj_of_length_eq rfl).mp hsuf).1
      have hmax : weight w u ≤ max := by
        have := weight_newest_le (w := w) max (d ++ s ++ t)
        rw [← hu, weight_append] at this
        omega
      rw [← hu]
      exact (List.suffix_append_inj_of_length_eq rfl).mpr ⟨(suffix_newest hus hmax).trans hnew, rfl⟩
  exact hle.eq_of_length_le hge.length_le

theorem cutAt_nextBoundary (hw : ∀ a, 0 < w a) (hmax : max ≤ weight w l) :
    ∃ d, l = d ++ newest w max l ∧ cutAt w l (nextBoundary w l max (weight w l - max)) = some (d, newest w max l) := by
  obtain ⟨d, hd⟩ := newest_suffix (w := w) max l
  have hsum : weight w l = weight w d + weight w (newest w max l) := by
    conv_lhs => rw [← hd]
    exact weight_append
  have hle := weight_newest_le (w := w) max l
  have hcut : cutAt w l (weight w d) = some (d, newest w max l) := by
    conv_lhs => rw [← hd]
    exact cutAt_append hw d _
  have hfirst : nextBoundary w l max (weight w l - max) = weight w d := by
    apply nextBoundary_eq (by rw [hcut]; rfl) _ (by omega) (by omega)
    intro k hk hlt
    by_contra hsome
    obtain ⟨⟨front, back⟩, heq⟩ := Option.isSome_iff_exists.mp (Bool.eq_true_of_not_eq_false hsome)
    obtain ⟨hl, hfront⟩ := cutAt_eq_some heq
    have hback : weight w back ≤ max := by
      have := congrArg (weight w) hl
      rw [weight_append] at this
      omega
    have := weight_le_of_suffix (w := w) (suffix_newest ⟨front, hl.symm⟩ hback)
    have := congrArg (weight w) hl
    rw [weight_append] at this
    omega
  rw [hfirst]
  exact ⟨d, hd.symm, hcut⟩

end AnimaCore.Lib
