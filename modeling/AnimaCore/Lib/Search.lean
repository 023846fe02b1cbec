import Mathlib

/-!
# AnimaCore.Lib.Search — depth-first search with a stack and a visited set

`search skip accept next fuel stack visited` is the loop

    while let Some(s) = stack.pop() {
        if skip(s) || !visited.insert(s) { continue }
        if accept(s) { return true }
        stack.extend(next(s))
    }
    false

with `fuel` bounding the number of rounds.  `search_iff`: when a rank goes down along every edge and no state has more
than `b` successors, `(b + 1) ^ rank` rounds are enough, and the loop returns `true` iff an accepting state is reached
from the start along edges out of states that are not skipped.
-/

namespace AnimaCore.Lib

variable {σ : Type}

/-- The loop; the next state to pop is the head of `stack`. -/
def search [DecidableEq σ] (skip accept : σ → Bool) (next : σ → List σ) : ℕ → List σ → List σ → Bool
  | 0, _, _ => false
  | _ + 1, [], _ => false
  | fuel + 1, s :: stack, visited =>
    if skip s || visited.contains s then search skip accept next fuel stack visited
    else if accept s then true
    else search skip accept next fuel (next s ++ stack) (s :: visited)

section

variable {skip accept : σ → Bool} {next : σ → List σ} {rank : σ → ℕ} {b : ℕ}

def Edge (skip : σ → Bool) (next : σ → List σ) (s t : σ) : Prop := skip s = false ∧ t ∈ next s

/-- Some accepting state is reached from `s`. -/
def Finds (skip accept : σ → Bool) (next : σ → List σ) (s : σ) : Prop :=
  ∃ t, Relation.ReflTransGen (Edge skip next) s t ∧ skip t = false ∧ accept t = true

theorem Finds.not_skip {s : σ} (h : Finds skip accept next s) : skip s = false := by
  obtain ⟨t, hpath, hskip, _⟩ := h
  rcases hpath.cases_head with rfl | ⟨u, hedge, _⟩
  · exact hskip
  · exact hedge.1

theorem Finds.head {s t : σ} (hedge : Edge skip next s t) (h : Finds skip accept next t) :
    Finds skip accept next s := by
  obtain ⟨u, hpath, hskip, hacc⟩ := h
  exact ⟨u, .head hedge hpath, hskip, hacc⟩

theorem finds_of_search [DecidableEq σ] {fuel : ℕ} {stack visited : List σ}
    (h : search skip accept next fuel stack visited = true) : ∃ s ∈ stack, Finds skip accept next s := by
  induction fuel generalizing stack visited with
  | zero => cases h
  | succ fuel ih =>
    cases stack with
    | nil => cases h
    | cons s stack =>
      unfold search at h
      split_ifs at h with hseen hacc
      · obtain ⟨u, hu, hfinds⟩ := ih h
        exact ⟨u, List.mem_cons_of_mem s hu, hfinds⟩
      · have hskip : skip s = false := (Bool.or_eq_false_iff.mp (Bool.eq_false_iff.mpr hseen)).1
        exact ⟨s, List.mem_cons_self, s, .refl, hskip, hacc⟩
      · have hskip : skip s = false := (Bool.or_eq_false_iff.mp (Bool.eq_false_iff.mpr hseen)).1
        obtain ⟨u, hu, hfinds⟩ := ih h
        rcases List.mem_append.mp hu with hu | hu
        · exact ⟨s, List.mem_cons_self, hfinds.head ⟨hskip, hu⟩⟩
        · exact ⟨u, List.mem_cons_of_mem s hu, hfinds⟩

/-- The visited states have been checked, and their successors are accounted for. -/
def Explored (skip accept : σ → Bool) (next : σ → List σ) (stack visited : List σ) : Prop :=
  ∀ v ∈ visited, accept v = false ∧ ∀ t ∈ next v, t ∈ visited ∨ t ∈ stack ∨ skip t = true

theorem Explored.leaves {stack visited : List σ} (hexp : Explored skip accept next stack visited) {v : σ}
    (hv : v ∈ visited) (h : Finds skip accept next v) : ∃ u ∈ stack, u ∉ visited ∧ Finds skip accept next u := by
  obtain ⟨t, hpath, hskip, hacc⟩ := h
  induction hpath using Relation.ReflTransGen.head_induction_on with
  | refl =>
    have hnot := (hexp t hv).1
    rw [hacc] at hnot
    cases hnot
  | @head v w hedge hrest ih =>
    have hfinds : Finds skip accept next w := ⟨t, hrest, hskip, hacc⟩
    rcases (hexp v hv).2 w hedge.2 with hw | hw | hw
    · exact ih hw
    · by_cases hvis : w ∈ visited
      · exact ih hvis
      · exact ⟨w, hw, hvis, hfinds⟩
    · rw [hfinds.not_skip] at hw
      cases hw

def stackWeight (rank : σ → ℕ) (b : ℕ) (stack : List σ) : ℕ := (stack.map fun s => (b + 1) ^ rank s).sum

theorem stackWeight_cons (s : σ) (stack : List σ) :
    stackWeight rank b (s :: stack) = (b + 1) ^ rank s + stackWeight rank b stack := by
  simp [stackWeight]

theorem stackWeight_append (l r : List σ) :
    stackWeight rank b (l ++ r) = stackWeight rank b l + stackWeight rank b r := by
  simp [stackWeight]

theorem stackWeight_next {s : σ} (hrank : ∀ t ∈ next s, rank t < rank s) (hb : (next s).length ≤ b) :
    stackWeight rank b (next s) < (b + 1) ^ rank s := by
  have hle : ∀ n ∈ (next s).map fun t => (b + 1) ^ rank t, n ≤ (b + 1) ^ (rank s - 1) := by
    intro n hn
    obtain ⟨t, ht, rfl⟩ := List.mem_map.mp hn
    have := hrank t ht
    exact Nat.pow_le_pow_right (by omega) (by omega)
  have hsum : stackWeight rank b (next s) ≤ (next s).length * (b + 1) ^ (rank s - 1) := by
    have := List.sum_le_card_nsmul _ _ hle
    simpa [stackWeight] using this
  cases hr : rank s with
  | zero =>
    have hnil : next s = [] := List.eq_nil_iff_forall_not_mem.mpr fun t ht => by
      have := hrank t ht
      omega
    simp [stackWeight, hnil]
  | succ r =>
    rw [hr, Nat.add_sub_cancel] at hsum
    have hpos : 0 < (b + 1) ^ r := Nat.pow_pos (by omega)
    calc stackWeight rank b (next s) ≤ (next s).length * (b + 1) ^ r := hsum
      _ ≤ b * (b + 1) ^ r := Nat.mul_le_mul_right _ hb
      _ < (b + 1) ^ (r + 1) := by rw [pow_succ]; nlinarith

theorem search_of_finds [DecidableEq σ] (hrank : ∀ s t, skip s = false → t ∈ next s → rank t < rank s)
    (hb : ∀ s, (next s).length ≤ b) {fuel : ℕ} {stack visited : List σ}
    (hfuel : stackWeight rank b stack < fuel) (hexp : Explored skip accept next stack visited)
    (h : ∃ s ∈ stack, s ∉ visited ∧ Finds skip accept next s) :
    search skip accept next fuel stack visited = true := by
  induction fuel generalizing stack visited with
  | zero => omega
  | succ fuel ih =>
    obtain ⟨u, hu, hnew, hfinds⟩ := h
    cases stack with
    | nil => cases hu
    | cons s stack =>
      rw [stackWeight_cons] at hfuel
      have hpos : 0 < (b + 1) ^ rank s := Nat.pow_pos (by omega)
      unfold search
      split_ifs with hseen hacc
      · -- a skipped or visited state is not the one looked for, and is accounted for
        have hne : u ≠ s := by
          rintro rfl
          rw [hfinds.not_skip, Bool.false_or, List.contains_iff_mem] at hseen
          exact hnew hseen
        have hexp' : Explored skip accept next stack visited := by
          intro v hv
          refine ⟨(hexp v hv).1, fun t ht => ?_⟩
          rcases (hexp v hv).2 t ht with hm | hm | hm
          · exact .inl hm
          · rcases List.mem_cons.mp hm with rfl | hm
            · rcases Bool.or_eq_true_iff.mp hseen with hs | hs
              · exact .inr (.inr hs)
              · exact .inl (List.contains_iff_mem.mp hs)
            · exact .inr (.inl hm)
          · exact .inr (.inr hm)
        exact ih (by omega) hexp' ⟨u, (List.mem_cons.mp hu).resolve_left hne, hnew, hfinds⟩
      · rfl
      · have hskip : skip s = false := (Bool.or_eq_false_iff.mp (Bool.eq_false_iff.mpr hseen)).1
        have hexp' : Explored skip accept next (next s ++ stack) (s :: visited) := by
          intro v hv
          rcases List.mem_cons.mp hv with rfl | hv
          · exact ⟨Bool.eq_false_iff.mpr hacc, fun t ht => .inr (.inl (List.mem_append_left _ ht))⟩
          · refine ⟨(hexp v hv).1, fun t ht => ?_⟩
            rcases (hexp v hv).2 t ht with hm | hm | hm
            · exact .inl (List.mem_cons_of_mem _ hm)
            · rcases List.mem_cons.mp hm with rfl | hm
              · exact .inl List.mem_cons_self
              · exact .inr (.inl (List.mem_append_right _ hm))
            · exact .inr (.inr hm)
        have hless := stackWeight_next (hrank s · hskip) (hb s)
        refine ih (by rw [stackWeight_append]; omega) hexp' ?_
        by_cases hus : u = s
        · exact hexp'.leaves List.mem_cons_self (hus ▸ hfinds)
        · have hrest : u ∈ stack := (List.mem_cons.mp hu).resolve_left hus
          exact ⟨u, List.mem_append_right _ hrest, by simp [hus, hnew], hfinds⟩

/-- **The search decides reachability.** -/
theorem search_iff [DecidableEq σ] (hrank : ∀ s t, skip s = false → t ∈ next s → rank t < rank s)
    (hb : ∀ s, (next s).length ≤ b) {fuel : ℕ} {s : σ} (hfuel : (b + 1) ^ rank s < fuel) :
    search skip accept next fuel [s] [] = true ↔ Finds skip accept next s := by
  constructor
  · intro h
    obtain ⟨u, hu, hfinds⟩ := finds_of_search h
    rw [List.mem_singleton] at hu
    exact hu ▸ hfinds
  · intro h
    refine search_of_finds hrank hb (by simpa [stackWeight] using hfuel) ?_ ⟨s, List.mem_cons_self, ?_, h⟩
    · intro v hv
      cases hv
    · exact List.not_mem_nil

end

end AnimaCore.Lib
