import Mathlib

/-!
# AnimaCore.Lib.Occurrences — the disjoint occurrences of a word

`At p t i`: the word `p` occurs in `t` at `i`.  Occurrences may overlap; a search for disjoint ones takes the first and
goes on behind it.  `Taken p t s i` are the occurrences it takes from place `s` on.

* `taken_iff`: an occurrence is taken iff it does not begin inside one taken before it.
-/

namespace AnimaCore.Lib.Occurrences

variable {α : Type} {p t : List α} {s i j : ℕ}

/-- `p` occurs in `t` at `i`. -/
def At (p t : List α) (i : ℕ) : Prop := i ≤ t.length ∧ p <+: t.drop i

/-- The occurrences taken from `s` on: the first one, and those taken behind it. -/
inductive Taken (p t : List α) : ℕ → ℕ → Prop
  | here {s i : ℕ} (hs : s ≤ i) (hi : At p t i) (hfirst : ∀ k, s ≤ k → k < i → ¬ At p t k) : Taken p t s i
  | later {s j i : ℕ} (hs : s ≤ j) (hj : At p t j) (hfirst : ∀ k, s ≤ k → k < j → ¬ At p t k)
      (h : Taken p t (j + max 1 p.length) i) : Taken p t s i

theorem Taken.at (h : Taken p t s i) : s ≤ i ∧ At p t i := by
  induction h with
  | here hs hi _ => exact ⟨hs, hi⟩
  | later hs _ _ _ ih => exact ⟨by omega, ih.2⟩

theorem first_unique (hs : s ≤ i) (hi : At p t i) (hfirst : ∀ k, s ≤ k → k < i → ¬ At p t k) (hs' : s ≤ j)
    (hj : At p t j) (hfirst' : ∀ k, s ≤ k → k < j → ¬ At p t k) : i = j := by
  rcases Nat.lt_trichotomy i j with hlt | heq | hlt
  · exact absurd hi (hfirst' i hs hlt)
  · exact heq
  · exact absurd hj (hfirst j hs' hlt)

theorem taken_of_at (hs : At p t s) : Taken p t s i ↔ i = s ∨ Taken p t (s + max 1 p.length) i := by
  have hnone : ∀ k, s ≤ k → k < s → ¬ At p t k := fun k h1 h2 => absurd h1 (by omega)
  constructor
  · intro h
    cases h with
    | here hsi hi hfirst => exact .inl (first_unique hsi hi hfirst le_rfl hs hnone)
    | later hsj hj hfirst h =>
      obtain rfl := first_unique hsj hj hfirst le_rfl hs hnone
      exact .inr h
  · rintro (rfl | h)
    · exact .here le_rfl hs hnone
    · exact .later le_rfl hs hnone h

theorem taken_of_not_at (hs : ¬ At p t s) : Taken p t s i ↔ Taken p t (s + 1) i := by
  have hne : ∀ k, s ≤ k → At p t k → s + 1 ≤ k := by
    intro k hk hat
    have : k ≠ s := fun h => hs (h ▸ hat)
    omega
  constructor
  · intro h
    cases h with
    | here hsi hi hfirst => exact .here (hne i hsi hi) hi fun k hk => hfirst k (by omega)
    | later hsj hj hfirst h => exact .later (hne _ hsj hj) hj (fun k hk => hfirst k (by omega)) h
  · intro h
    cases h with
    | here hsi hi hfirst =>
      exact .here (by omega) hi fun k hk hki hat => hfirst k (hne k hk hat) hki hat
    | later hsj hj hfirst h =>
      exact .later (by omega) hj (fun k hk hkj hat => hfirst k (hne k hk hat) hkj hat) h

theorem not_taken_of_length_lt (hs : t.length < s) : ¬ Taken p t s i := by
  intro h
  have := h.at.1
  have := h.at.2.1
  omega

theorem Taken.disjoint (hj : Taken p t s j) (hi : Taken p t s i) (hji : j < i) : j + p.length ≤ i := by
  induction hj with
  | @here s j hs hat hfirst =>
    cases hi with
    | here hsi hi hfirst' =>
      have := first_unique hs hat hfirst hsi hi hfirst'
      omega
    | later hsj hj hfirst' h =>
      obtain rfl := first_unique hs hat hfirst hsj hj hfirst'
      have := h.at.1
      omega
  | @later s j₀ j hs hat hfirst h ih =>
    have hj₀ := h.at.1
    cases hi with
    | here hsi hi hfirst' =>
      have := first_unique hs hat hfirst hsi hi hfirst'
      omega
    | later hsj hj hfirst' h' =>
      obtain rfl := first_unique hs hat hfirst hsj hj hfirst'
      exact ih h' hji

theorem exists_first (hs : s ≤ i) (hi : At p t i) :
    ∃ j, s ≤ j ∧ j ≤ i ∧ At p t j ∧ ∀ k, s ≤ k → k < j → ¬ At p t k := by
  classical
  have hex : ∃ k, s ≤ k ∧ At p t k := ⟨i, hs, hi⟩
  refine ⟨Nat.find hex, (Nat.find_spec hex).1, Nat.find_le ⟨hs, hi⟩, (Nat.find_spec hex).2, ?_⟩
  intro k hk hlt hat
  exact Nat.find_min hex hlt ⟨hk, hat⟩

/-- An occurrence that begins inside no taken one is taken: by induction on its distance from the start. -/
theorem taken_of_outside (hs : s ≤ i) (hi : At p t i) (hout : ∀ j, Taken p t s j → j < i → j + p.length ≤ i) :
    Taken p t s i := by
  induction hd : i - s using Nat.strong_induction_on generalizing s with
  | _ d ih =>
    obtain ⟨j, hsj, hji, hj, hfirst⟩ := exists_first hs hi
    rcases Nat.lt_or_eq_of_le hji with hlt | rfl
    · have hbehind : j + p.length ≤ i := hout j (.here hsj hj hfirst) hlt
      have hnext : j + max 1 p.length ≤ i := by omega
      refine .later hsj hj hfirst (ih (i - (j + max 1 p.length)) (by omega) hnext ?_ rfl)
      exact fun k hk => hout k (.later hsj hj hfirst hk)
    · exact .here hsj hj hfirst

/-- **What a search for disjoint occurrences misses**: the occurrences that begin inside one it takes. -/
theorem taken_iff (hs : s ≤ i) (hi : At p t i) :
    Taken p t s i ↔ ∀ j, Taken p t s j → j < i → j + p.length ≤ i :=
  ⟨fun h _ hj => hj.disjoint h, taken_of_outside hs hi⟩

end AnimaCore.Lib.Occurrences
