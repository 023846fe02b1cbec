import Mathlib

/-!
# AnimaCore.Lib.Blocks — what a memory of one value can tell

A process that remembers only the last value it accepted accepts a value iff it differs from that one: of a list it
accepts `List.destutter (· ≠ ·)`.

* `mem_destutter_ne`: every value is accepted at least once.
* `destutter_ne_nodup_iff`: no value is accepted twice iff no value comes back after another one.
-/

namespace AnimaCore.Lib

variable {α : Type} [DecidableEq α]

theorem sublist_destutter' {s l : List α} {a : α} (hs : s.IsChain (· ≠ ·)) (h : s.Sublist (a :: l)) :
    s.Sublist (l.destutter' (· ≠ ·) a) := by
  induction l generalizing a s with
  | nil => exact h
  | cons b l ih =>
    by_cases hab : a ≠ b
    · rw [List.destutter'_cons_pos _ hab]
      cases h with
      | cons _ h => exact (ih hs h).cons a
      | cons_cons _ h => exact (ih hs.tail h).cons_cons a
    · rw [List.destutter'_cons_neg _ hab]
      have hb : b = a := (not_ne_iff.mp hab).symm
      subst hb
      apply ih hs
      -- of the two copies of `b` the sublist uses at most one
      cases h with
      | cons _ h => exact h
      | cons_cons _ h =>
        cases h with
        | cons _ h => exact h.cons_cons b
        | cons_cons _ h => simp at hs

theorem sublist_destutter {s l : List α} (hs : s.IsChain (· ≠ ·)) (h : s.Sublist l) :
    s.Sublist (l.destutter (· ≠ ·)) := by
  cases l with
  | nil => exact h
  | cons a l => exact sublist_destutter' hs h

theorem mem_destutter_ne {l : List α} {a : α} (h : a ∈ l) : a ∈ l.destutter (· ≠ ·) := by
  have hs : [a].Sublist (l.destutter (· ≠ ·)) :=
    sublist_destutter (by simp) (List.singleton_sublist.mpr h)
  exact List.singleton_sublist.mp hs

omit [DecidableEq α] in
theorem exists_between {d : List α} {a : α} (hd : d.IsChain (· ≠ ·)) (h : [a, a].Sublist d) :
    ∃ b, b ≠ a ∧ [a, b, a].Sublist d := by
  induction d with
  | nil => cases h
  | cons x d ih =>
    cases h with
    | cons _ h =>
      obtain ⟨b, hb, hs⟩ := ih hd.tail h
      exact ⟨b, hb, hs.cons x⟩
    | cons_cons _ h =>
      cases d with
      | nil => cases h
      | cons y d =>
        have hne : a ≠ y := (List.isChain_cons_cons.mp hd).1
        have hmem : a ∈ d := by
          rcases List.mem_cons.mp (List.singleton_sublist.mp h) with hy | hm
          · exact absurd hy hne
          · exact hm
        refine ⟨y, hne.symm, List.Sublist.cons_cons a (List.Sublist.cons_cons y ?_)⟩
        exact List.singleton_sublist.mpr hmem

/-- **One memory cell**: no value is accepted twice iff no value comes back after another one. -/
theorem destutter_ne_nodup_iff {l : List α} :
    (l.destutter (· ≠ ·)).Nodup ↔ ∀ a b, b ≠ a → ¬[a, b, a].Sublist l := by
  constructor
  · intro h a b hb hs
    have hchain : [a, b, a].IsChain (· ≠ ·) := by simp [hb, hb.symm]
    have hkept : [a, b, a].Sublist (l.destutter (· ≠ ·)) := sublist_destutter hchain hs
    have htwo : [a, a].Sublist [a, b, a] := by simp
    exact List.nodup_iff_sublist.mp h a (htwo.trans hkept)
  · intro h
    rw [List.nodup_iff_sublist]
    intro a hs
    obtain ⟨b, hb, hs'⟩ := exists_between (List.isChain_destutter _ l) hs
    exact h a b hb (hs'.trans (List.destutter_sublist _ l))

end AnimaCore.Lib
