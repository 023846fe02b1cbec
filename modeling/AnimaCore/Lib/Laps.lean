import Mathlib.Data.List.Basic
import Mathlib.Tactic.SplitIfs

/-!
# AnimaCore.Lib.Laps — copies of a block at the end of a history

* `getElem?_copies`: an element of some copies of a block is the one at the same place of the block.
* `eq_copies_iff`: a list is some copies of its front if its elements come again after the length of the front.
* `lastN`: the newest elements of a history.  `push_lastN`: a window that drops its oldest element holds them.
* `suffix_lastN`: the window has the same short ends as the history.
-/

namespace AnimaCore.Lib

variable {α : Type}

def copies (k : ℕ) (block : List α) : List α := (List.replicate k block).flatten

theorem copies_succ (k : ℕ) (block : List α) : copies (k + 1) block = block ++ copies k block := by
  unfold copies
  rw [List.replicate_succ, List.flatten_cons]

theorem length_copies (k : ℕ) (block : List α) : (copies k block).length = k * block.length := by
  induction k with
  | zero => simp [copies]
  | succ k ih => rw [copies_succ, List.length_append, ih, Nat.succ_mul, Nat.add_comm]

theorem getElem?_copies {k : ℕ} {block : List α} {i : ℕ} (hi : i < k * block.length) :
    (copies k block)[i]? = block[i % block.length]? := by
  induction k generalizing i with
  | zero => omega
  | succ k ih =>
    rw [copies_succ, List.getElem?_append]
    by_cases hfront : i < block.length
    · rw [if_pos hfront, Nat.mod_eq_of_lt hfront]
    · have hle : block.length ≤ i := Nat.le_of_not_lt hfront
      have hrest : i - block.length < k * block.length := by
        rw [Nat.succ_mul] at hi
        omega
      rw [if_neg hfront, ih hrest, Nat.mod_eq_sub_mod hle]

/-- **Copies of the front**: every element after the front is the one of the front at the same place. -/
theorem eq_copies_iff {k p : ℕ} (hk : 0 < k) {xs : List α} (hlength : xs.length = k * p) :
    xs = copies k (xs.take p) ↔ ∀ i, i < xs.length - p → xs[p + i]? = xs[i % p]? := by
  have hp : p ≤ xs.length := hlength ▸ Nat.le_mul_of_pos_left p hk
  have hfront : (xs.take p).length = p := by
    rw [List.length_take]
    omega
  have hplace : ∀ i, i < xs.length → (copies k (xs.take p))[i]? = xs[i % p]? := by
    intro i hi
    have hpos : 0 < p := by
      rcases Nat.eq_zero_or_pos p with rfl | hpos
      · omega
      · exact hpos
    have hin : i < k * (xs.take p).length := by
      rw [hfront, ← hlength]
      exact hi
    rw [getElem?_copies hin, hfront, List.getElem?_take_of_lt (Nat.mod_lt i hpos)]
  constructor
  · intro heq i hi
    have hat : xs[p + i]? = (copies k (xs.take p))[p + i]? := congrArg (·[p + i]?) heq
    rw [hat, hplace (p + i) (by omega), Nat.add_mod_left]
  · intro hagain
    refine List.ext_getElem? fun i => ?_
    by_cases hi : i < xs.length
    · rw [hplace i hi]
      by_cases hfirst : i < p
      · rw [Nat.mod_eq_of_lt hfirst]
      · have hlater := hagain (i - p) (by omega)
        have hsum : p + (i - p) = i := by omega
        have hmod : i % p = (i - p) % p := Nat.mod_eq_sub_mod (by omega)
        rw [hsum] at hlater
        rw [hlater, hmod]
    · have hlen : (copies k (xs.take p)).length = xs.length := by rw [length_copies, hfront, hlength]
      rw [List.getElem?_eq_none (by omega), List.getElem?_eq_none (by omega)]

/-! ## The newest elements -/

/-- The newest `n` elements, of a list with the newest last. -/
def lastN (n : ℕ) (xs : List α) : List α := xs.drop (xs.length - n)

theorem length_lastN (n : ℕ) (xs : List α) : (lastN n xs).length = min xs.length n := by
  unfold lastN
  rw [List.length_drop]
  omega

/-- **A bounded window**: one that is full drops its oldest element first. -/
theorem push_lastN {n : ℕ} (hn : 0 < n) (xs : List α) (x : α) :
    (if (lastN n xs).length = n then (lastN n xs).drop 1 else lastN n xs) ++ [x] = lastN n (xs ++ [x]) := by
  have hlength := length_lastN n xs
  have happend : lastN n (xs ++ [x]) = xs.drop (xs.length + 1 - n) ++ [x] := by
    unfold lastN
    rw [List.length_append, List.length_singleton, List.drop_append_of_le_length (by omega)]
  rw [happend]
  by_cases hfull : (lastN n xs).length = n
  · have hdrop : xs.length - n + 1 = xs.length + 1 - n := by omega
    rw [if_pos hfull]
    unfold lastN
    rw [List.drop_drop, hdrop]
  · have hall : xs.length - n = 0 ∧ xs.length + 1 - n = 0 := by omega
    rw [if_neg hfull]
    unfold lastN
    rw [hall.1, hall.2]

/-- **The window has the same short ends as the history.** -/
theorem suffix_lastN {n : ℕ} {l xs : List α} (hl : l.length ≤ n) : l <:+ lastN n xs ↔ l <:+ xs := by
  constructor
  · exact fun h => h.trans (List.drop_suffix _ _)
  · intro h
    refine List.suffix_of_suffix_length_le h (List.drop_suffix _ _) ?_
    have hle := h.length_le
    show l.length ≤ (lastN n xs).length
    rw [length_lastN]
    omega

end AnimaCore.Lib
