import AnimaCore.Lib.Table

/-!
# AnimaCore.Lib.Tally — tables of counts without zeros

A table that counts keeps an entry for the keys whose count is positive and no others.

* `Counts t n`: the table `t` says what `n` says.
* `bump`, `lower`: one more, one less; an entry that would be zero is removed.
* `Counts.foldl_bump`, `Counts.foldl_lower`: the loops that count a list in, or out again.
-/

namespace AnimaCore.Lib

variable {κ : Type} [Ord κ]

/-- A table of counts. -/
abbrev Tally (κ : Type) [Ord κ] := Table κ ℕ

namespace Tally

variable [Std.TransOrd κ]

/-- One more of `k`. -/
def bump (t : Tally κ) (k : κ) : Tally κ := t.insert k (t[k]?.getD 0 + 1)

/-- One less of `k`. -/
def lower (t : Tally κ) (k : κ) : Tally κ :=
  match t[k]? with
  | none => t.erase k
  | some 0 => t.erase k
  | some 1 => t.erase k
  | some count => t.insert k (count - 1)

/-- The table has the counts `n`, and no entry where `n` is zero. -/
def Counts (t : Tally κ) (n : κ → ℕ) : Prop := ∀ k : κ, t[k]? = if n k = 0 then none else some (n k)

variable [Std.LawfulEqOrd κ] {t : Tally κ} {n : κ → ℕ}

omit [Std.LawfulEqOrd κ] in
theorem counts_empty : Counts (∅ : Tally κ) fun _ => 0 := fun _ => by simp

omit [Std.LawfulEqOrd κ] in
theorem Counts.congr {n' : κ → ℕ} (h : Counts t n) (heq : ∀ k, n k = n' k) : Counts t n' := by
  intro k
  rw [h k, heq k]

omit [Std.LawfulEqOrd κ] in
theorem Counts.getD (h : Counts t n) (k : κ) : t[k]?.getD 0 = n k := by
  rw [h k]
  split_ifs with hk
  · exact hk.symm
  · rfl

omit [Std.LawfulEqOrd κ] in
theorem Counts.mem_iff (h : Counts t n) (k : κ) : k ∈ t ↔ 0 < n k := by
  rw [Table.mem_iff_getElem?_isSome, h k]
  split_ifs with hk
  · simp [hk]
  · simp [Nat.pos_of_ne_zero hk]

variable [DecidableEq κ]

theorem Counts.bump (h : Counts t n) (k : κ) : Counts (t.bump k) fun a => n a + if k = a then 1 else 0 := by
  intro a
  unfold Tally.bump
  rw [Table.getElem?_insert_eq, h.getD k]
  by_cases ha : k = a
  · subst ha
    simp
  · simp only [ha, if_false, Nat.add_zero]
    exact h a

theorem Counts.lower (h : Counts t n) (k : κ) : Counts (t.lower k) fun a => n a - if k = a then 1 else 0 := by
  have herase : n k ≤ 1 → Counts (t.erase k) fun a => n a - if k = a then 1 else 0 := by
    intro hone a
    rw [Table.getElem?_erase_eq]
    by_cases ha : k = a
    · subst ha
      simp only [if_true]
      rw [if_pos (by omega)]
    · simp only [ha, if_false, Nat.sub_zero]
      exact h a
  have hk := h k
  unfold Tally.lower
  by_cases hzero : n k = 0
  · rw [if_pos hzero] at hk
    rw [hk]
    exact herase (by omega)
  · rw [if_neg hzero] at hk
    rw [hk]
    rcases hn : n k with _ | _ | count
    · omega
    · exact herase (by omega)
    · intro a
      show (t.insert k (count + 1 + 1 - 1))[a]? = _
      rw [Table.getElem?_insert_eq]
      by_cases ha : k = a
      · subst ha
        simp [hn]
      · simp only [ha, if_false, Nat.sub_zero]
        exact h a

theorem Counts.foldl_bump (l : List κ) : ∀ {t : Tally κ} {n : κ → ℕ}, Counts t n →
    Counts (l.foldl Tally.bump t) fun a => n a + l.count a := by
  induction l with
  | nil => intro t n h; simpa using h
  | cons k l ih =>
    intro t n h
    refine (ih (h.bump k)).congr fun a => ?_
    rw [List.count_cons]
    by_cases ha : k = a
    · simp only [ha, if_true, beq_self_eq_true]
      omega
    · simp [ha]

theorem Counts.foldl_lower (l : List κ) : ∀ {t : Tally κ} {n : κ → ℕ}, Counts t n →
    Counts (l.foldl Tally.lower t) fun a => n a - l.count a := by
  induction l with
  | nil => intro t n h; simpa using h
  | cons k l ih =>
    intro t n h
    refine (ih (h.lower k)).congr fun a => ?_
    rw [List.count_cons]
    by_cases ha : k = a
    · simp only [ha, if_true, beq_self_eq_true]
      omega
    · simp [ha]

end Tally

end AnimaCore.Lib
