import Mathlib

/-!
# AnimaCore.Lib.RefCount — shared objects and their holders

Objects with weights are shared.  A holder is the list of the keys it refers to; an object is live while it is pinned or
some holder refers to it.

* `refs holders k`: how many holders refer to `k`.
* `liveWeight pinned store holders`: the weight of the live objects of a store.
* `refs_release`, `liveWeight_release`: a holder lets go of one key.  Its count falls by one, and the weight by that of the
  object if nothing is left that holds it.
* Neither depends on the order of the holders (`refs_perm`, `liveWeight_perm`).
-/

namespace AnimaCore.Lib

variable {κ : Type} [DecidableEq κ] {pinned : κ → Bool} {store : List (κ × ℕ)} {holders holders' : List (List κ)}
  {keys : List κ} {k : κ}

def refs (holders : List (List κ)) (k : κ) : ℕ := holders.countP fun keys => decide (k ∈ keys)

/-- An object is live while it is pinned or referred to. -/
def live (pinned : κ → Bool) (holders : List (List κ)) (k : κ) : Bool := pinned k || decide (refs holders k ≠ 0)

def liveWeight (pinned : κ → Bool) (store : List (κ × ℕ)) (holders : List (List κ)) : ℕ :=
  ((store.filter fun e => live pinned holders e.1).map (·.2)).sum

/-! ## Order -/

theorem refs_perm (h : holders.Perm holders') (k : κ) : refs holders k = refs holders' k := h.countP_eq _

theorem live_perm (h : holders.Perm holders') (k : κ) : live pinned holders k = live pinned holders' k := by
  unfold live
  rw [refs_perm h]

theorem liveWeight_perm (h : holders.Perm holders') : liveWeight pinned store holders = liveWeight pinned store holders' := by
  unfold liveWeight
  simp only [live_perm h]

theorem refs_ne_zero_iff : refs holders k ≠ 0 ↔ ∃ keys ∈ holders, k ∈ keys := by
  unfold refs
  rw [← Nat.pos_iff_ne_zero, List.countP_pos_iff]
  simp only [decide_eq_true_eq]

/-! ## Letting go -/

theorem refs_nil (holders : List (List κ)) (k : κ) : refs ([] :: holders) k = refs holders k := by
  unfold refs
  rw [List.countP_cons_of_neg (by simp)]

theorem liveWeight_nil : liveWeight pinned store ([] :: holders) = liveWeight pinned store holders := by
  unfold liveWeight live
  simp only [refs_nil]

theorem refs_release (hk : k ∉ keys) (a : κ) :
    refs ((k :: keys) :: holders) a = refs (keys :: holders) a + if a = k then 1 else 0 := by
  unfold refs
  rw [List.countP_cons, List.countP_cons]
  by_cases ha : a = k
  · subst ha
    simp [hk]
  · simp [ha]

/-- **Letting go of one key** takes its weight away if nothing holds it any more. -/
theorem liveWeight_release (pinned : κ → Bool) (holders : List (List κ)) {w : ℕ} (hstore : (store.map (·.1)).Nodup)
    (hmem : (k, w) ∈ store) (hk : k ∉ keys) :
    liveWeight pinned store ((k :: keys) :: holders) =
      liveWeight pinned store (keys :: holders) + if refs (keys :: holders) k = 0 ∧ pinned k = false then w else 0 := by
  have hperm := List.perm_cons_erase hmem
  -- the other objects are as live as before
  have hother : ∀ e ∈ store.erase (k, w),
      live pinned ((k :: keys) :: holders) e.1 = live pinned (keys :: holders) e.1 := by
    intro e he
    have hnd := (hperm.map (·.1)).nodup_iff.mp hstore
    have hne : e.1 ≠ k := by
      intro heq
      exact (List.nodup_cons.mp hnd).1 (List.mem_map.mpr ⟨e, he, heq⟩)
    unfold live
    rw [refs_release hk, if_neg hne, Nat.add_zero]
  have hsum : ∀ holders : List (List κ), liveWeight pinned store holders =
      (if live pinned holders k then w else 0) + liveWeight pinned (store.erase (k, w)) holders := by
    intro holders
    unfold liveWeight
    rw [((hperm.filter _).map _).sum_eq, List.filter_cons]
    split_ifs
    · rw [List.map_cons, List.sum_cons]
    · rw [Nat.zero_add]
  have hrest : liveWeight pinned (store.erase (k, w)) ((k :: keys) :: holders) =
      liveWeight pinned (store.erase (k, w)) (keys :: holders) := by
    unfold liveWeight
    rw [List.filter_congr hother]
  have hlive : live pinned ((k :: keys) :: holders) k = true := by
    unfold live
    rw [refs_release hk, if_pos rfl]
    simp
  rw [hsum, hsum (keys :: holders), hrest, if_pos hlive]
  unfold live
  by_cases hrefs : refs (keys :: holders) k = 0
  · cases pinned k with
    | false => simp [hrefs, Nat.add_comm]
    | true => simp
  · simp [hrefs]

end AnimaCore.Lib
