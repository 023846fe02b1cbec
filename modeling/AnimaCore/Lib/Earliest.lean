import AnimaCore.Lib.Fallible

/-!
# AnimaCore.Lib.Earliest — searches that stop at the first answer

`FirstIn S g r`: `r` is the answer of `g` at the least point of `S` that has one, and `none` if no point has.

* `FirstIn.append`: a search that goes on where another one found nothing.
* `firstIn_findSomeM?`: nested loops, each over points that all come before those of the next round.
* `findSome?_range_eq_some`: a count to the first answer.
-/

namespace AnimaCore.Lib

variable {α β ι ε : Type} [Preorder α] {S T : α → Prop} {g : α → Option β} {r : Option β}

/-- The answer at the least point that has one. -/
def FirstIn (S : α → Prop) (g : α → Option β) : Option β → Prop
  | some b => ∃ x, S x ∧ g x = some b ∧ ∀ y, S y → y < x → g y = none
  | none => ∀ x, S x → g x = none

theorem FirstIn.congr (h : FirstIn S g r) (hS : ∀ x, S x ↔ T x) : FirstIn T g r := by
  have heq : S = T := funext fun x => propext (hS x)
  rwa [heq] at h

theorem firstIn_single {p : Prop} [Decidable p] (x : α) : FirstIn (fun y => y = x ∧ p) g (if p then g x else none) := by
  by_cases hp : p
  · rw [if_pos hp]
    cases hg : g x with
    | none =>
      rintro y ⟨rfl, _⟩
      exact hg
    | some b =>
      refine ⟨x, ⟨rfl, hp⟩, hg, ?_⟩
      rintro y ⟨rfl, _⟩ hlt
      exact absurd hlt (lt_irrefl y)
  · rw [if_neg hp]
    rintro y ⟨_, hp'⟩
    exact absurd hp' hp

theorem firstIn_empty (h : ∀ x, ¬S x) : FirstIn S g none := fun x hx => absurd hx (h x)

theorem FirstIn.found {b : β} (h : FirstIn S g (some b)) (hlt : ∀ x y, S x → T y → x < y) :
    FirstIn (fun x => S x ∨ T x) g (some b) := by
  obtain ⟨x, hx, hg, hmin⟩ := h
  refine ⟨x, .inl hx, hg, fun y hy hyx => ?_⟩
  rcases hy with hy | hy
  · exact hmin y hy hyx
  · exact absurd hyx (lt_asymm (hlt x y hx hy))

theorem FirstIn.append (h : FirstIn S g none) (h' : FirstIn T g r) : FirstIn (fun x => S x ∨ T x) g r := by
  cases r with
  | none =>
    intro x hx
    rcases hx with hx | hx
    · exact h x hx
    · exact h' x hx
  | some b =>
    obtain ⟨x, hx, hg, hmin⟩ := h'
    refine ⟨x, .inr hx, hg, fun y hy hyx => ?_⟩
    rcases hy with hy | hy
    · exact h y hy
    · exact hmin y hy hyx

/-- **A loop over rounds**, each over points that come before those of the later rounds. -/
theorem firstIn_findSomeM? {l : List ι} {P : ι → α → Prop} {f : ι → Except ε (Option β)}
    (hf : ∀ i ∈ l, ∃ r, f i = .ok r ∧ FirstIn (P i) g r) (hl : l.Pairwise fun i j => ∀ x y, P i x → P j y → x < y) :
    ∃ r, l.findSomeM? f = .ok r ∧ FirstIn (fun x => ∃ i ∈ l, P i x) g r := by
  induction l with
  | nil => exact ⟨none, rfl, firstIn_empty (by simp)⟩
  | cons i l ih =>
    obtain ⟨hfi, hfl⟩ := List.forall_mem_cons.mp hf
    obtain ⟨hlt, hl⟩ := List.pairwise_cons.mp hl
    obtain ⟨r, hr, hfirst⟩ := hfi
    have hor : ∀ x, (P i x ∨ ∃ j ∈ l, P j x) ↔ ∃ j ∈ i :: l, P j x := by simp
    rw [List.findSomeM?_cons, hr]
    cases r with
    | some b =>
      refine ⟨some b, rfl, (FirstIn.found hfirst ?_).congr hor⟩
      rintro x y hx ⟨j, hj, hy⟩
      exact hlt j hj x y hx hy
    | none =>
      obtain ⟨r', hr', hrest⟩ := ih hfl hl
      exact ⟨r', hr', (FirstIn.append hfirst hrest).congr hor⟩

/-- **A count** stops at the first answer. -/
theorem findSome?_range_eq_some {f : ℕ → Option β} {n : ℕ} {b : β} :
    (List.range n).findSome? f = some b ↔ ∃ k < n, f k = some b ∧ ∀ j < k, f j = none := by
  induction n with
  | zero => simp
  | succ n ih =>
    rw [List.range_succ, List.findSome?_append, Option.or_eq_some_iff, ih, List.findSome?_eq_none_iff, List.findSome?_singleton]
    constructor
    · rintro (⟨k, hk, h⟩ | ⟨hnone, h⟩)
      · exact ⟨k, by omega, h⟩
      · exact ⟨n, by omega, h, fun j hj => hnone j (List.mem_range.mpr hj)⟩
    · rintro ⟨k, hk, h, hnone⟩
      by_cases heq : k = n
      · subst heq
        exact .inr ⟨fun j hj => hnone j (List.mem_range.mp hj), h⟩
      · exact .inl ⟨k, by omega, h, hnone⟩

end AnimaCore.Lib
