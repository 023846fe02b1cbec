import Mathlib

/-!
# AnimaCore.Lib.Ranking — a sort and a cut

What a loop keeps or drops by its place in a sorted list, said without the sort: the place of an element is the number of
elements that come before it.

* `mem_drop_iff`: after the first `k` of a list in strict order come the elements with `k` others before them.
* `pairwise_strict`: a list sorted by a comparator is in strict order if no two of its elements compare equal.
* `mem_drop_mergeSort`: both together.
* `filter_append_of_pairwise`, `mem_takeWhile_iff`: an ordered list cut where a condition first holds.
-/

namespace AnimaCore.Lib

variable {α : Type} {l : List α}

theorem mem_drop_iff {before : α → α → Bool} (hasymm : ∀ a b, before a b = true → before b a = false)
    (hsorted : l.Pairwise fun a b => before a b = true) (k : ℕ) (a : α) :
    a ∈ l.drop k ↔ a ∈ l ∧ k ≤ l.countP fun b => before b a := by
  induction l generalizing k with
  | nil => simp
  | cons x l ih =>
    obtain ⟨hhead, htail⟩ := List.pairwise_cons.mp hsorted
    cases k with
    | zero => simp
    | succ k =>
      rw [List.drop_succ_cons, ih htail k, List.countP_cons, List.mem_cons]
      constructor
      · rintro ⟨ha, hcount⟩
        refine ⟨.inr ha, ?_⟩
        rw [if_pos (hhead a ha)]
        omega
      · rintro ⟨ha, hcount⟩
        rcases ha with rfl | ha
        · have hself : before a a = false := by
            by_contra htrue
            rw [Bool.not_eq_false] at htrue
            have := hasymm a a htrue
            rw [htrue] at this
            cases this
          have hnone : l.countP (fun b => before b a) = 0 := by
            rw [List.countP_eq_zero]
            intro b hb
            rw [hasymm a b (hhead b hb)]
            decide
          rw [hself, hnone] at hcount
          simp at hcount
        · rw [if_pos (hhead a ha)] at hcount
          exact ⟨ha, by omega⟩

theorem filter_append_of_pairwise {q : α → Bool} (hl : l.Pairwise fun a b => q a = true → q b = true) :
    l.filter (fun a => !q a) ++ l.filter q = l := by
  induction l with
  | nil => rfl
  | cons a l ih =>
    obtain ⟨hhead, htail⟩ := List.pairwise_cons.mp hl
    by_cases ha : q a = true
    · have hnone : l.filter (fun b => !q b) = [] := List.filter_eq_nil_iff.mpr fun b hb => by rw [hhead b hb ha]; decide
      have hall : l.filter q = l := List.filter_eq_self.mpr fun b hb => hhead b hb ha
      rw [List.filter_cons_of_neg (by rw [ha]; decide), hnone, List.filter_cons_of_pos ha, hall, List.nil_append]
    · rw [List.filter_cons_of_pos (by rw [Bool.eq_false_iff.mpr ha]; rfl), List.filter_cons_of_neg ha, List.cons_append, ih htail]

theorem mem_takeWhile_iff {before : α → α → Bool} (hasymm : ∀ a b, before a b = true → before b a = false)
    (hl : l.Pairwise fun a b => before a b = true) {p : α → Bool} {a : α} :
    a ∈ l.takeWhile (fun a => !p a) ↔ a ∈ l ∧ ∀ c ∈ l, p c = true → before a c = true := by
  have hsplit := List.takeWhile_append_dropWhile (p := fun a => !p a) (l := l)
  have hpair := hl
  rw [← hsplit, List.pairwise_append] at hpair
  obtain ⟨-, hback, hcross⟩ := hpair
  have hfront {c : α} (hc : c ∈ l.takeWhile fun a => !p a) : p c = false := by
    have := List.mem_takeWhile_imp hc
    rwa [Bool.not_eq_true'] at this
  constructor
  · intro ha
    refine ⟨List.takeWhile_subset _ ha, fun c hc hpc => hcross a ha c ?_⟩
    rw [← hsplit] at hc
    rcases List.mem_append.mp hc with hc | hc
    · rw [hfront hc] at hpc
      cases hpc
    · exact hc
  · rintro ⟨ha, hall⟩
    by_contra hnot
    have hdrop : a ∈ l.dropWhile fun a => !p a := by
      rw [← hsplit] at ha
      exact (List.mem_append.mp ha).resolve_left hnot
    rcases hd : l.dropWhile (fun a => !p a) with _ | ⟨d, rest⟩
    · rw [hd] at hdrop
      cases hdrop
    · have hpd : p d = true := by
        have := List.head?_dropWhile_not (fun a => !p a) l
        rw [hd] at this
        simpa using this
      have hdl : d ∈ l := by
        rw [← hsplit, hd]
        simp
      have had := hall d hdl hpd
      rw [hd] at hdrop hback
      rcases List.mem_cons.mp hdrop with rfl | hin
      · have := hasymm a a had
        rw [had] at this
        cases this
      · have := hasymm d a (List.rel_of_pairwise_cons hback hin)
        rw [had] at this
        cases this

section

variable {cmp : α → α → Ordering}

theorem pairwise_strict (hnd : l.Nodup) (heq : ∀ a ∈ l, ∀ b ∈ l, cmp a b = .eq → a = b)
    (hsorted : l.Pairwise fun a b => (cmp a b).isLE = true) : l.Pairwise fun a b => (cmp a b).isLT = true := by
  have hboth := hsorted.and hnd
  refine List.Pairwise.imp_of_mem (fun {a b} ha hb hab => ?_) hboth
  obtain ⟨hle, hne⟩ := hab
  cases hcmp : cmp a b with
  | lt => rfl
  | eq => exact absurd (heq a ha b hb hcmp) hne
  | gt =>
    rw [hcmp] at hle
    cases hle

theorem isLT_asymm [Std.OrientedCmp cmp] (a b : α) (h : (cmp a b).isLT = true) : (cmp b a).isLT = false := by
  have hswap : cmp b a = (cmp a b).swap := Std.OrientedCmp.eq_swap
  rw [hswap]
  cases hcmp : cmp a b with
  | lt => rfl
  | eq => rfl
  | gt =>
    rw [hcmp] at h
    cases h

/-- **What a sort and a cut leave**: the elements with `k` others before them. -/
theorem mem_drop_mergeSort [Std.TransCmp cmp] (hnd : l.Nodup) (heq : ∀ a ∈ l, ∀ b ∈ l, cmp a b = .eq → a = b) (k : ℕ) (a : α) :
    a ∈ (l.mergeSort fun a b => (cmp a b).isLE).drop k ↔ a ∈ l ∧ k ≤ l.countP fun b => (cmp b a).isLT := by
  have hperm := List.mergeSort_perm l fun a b => (cmp a b).isLE
  have hsorted : (l.mergeSort fun a b => (cmp a b).isLE).Pairwise fun a b => (cmp a b).isLE = true := by
    refine List.pairwise_mergeSort (fun a b c => Std.TransCmp.isLE_trans) (fun a b => ?_) l
    have hswap : cmp b a = (cmp a b).swap := Std.OrientedCmp.eq_swap
    rw [hswap]
    cases cmp a b <;> rfl
  have hstrict := pairwise_strict (hperm.nodup_iff.mpr hnd)
    (fun a ha b hb => heq a (hperm.mem_iff.mp ha) b (hperm.mem_iff.mp hb)) hsorted
  rw [mem_drop_iff isLT_asymm hstrict, hperm.mem_iff, hperm.countP_eq]

end

end AnimaCore.Lib
