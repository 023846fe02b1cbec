import Mathlib

/-!
# AnimaCore.Lib.PushNew — appending what is not there yet

`pushNew key l x` appends `x` to `l` unless an element with the key of `x` is there, and the loop over `xs` is
`xs.foldl (pushNew key) l`.

* `mem_of_mem_foldl_pushNew`, `subset_foldl_pushNew`, `key_mem_foldl_pushNew`: nothing else comes in, nothing leaves, and
  every key is there afterwards.
* `nodup_foldl_pushNew`: distinct keys stay distinct.
-/

namespace AnimaCore.Lib

variable {α κ : Type} [DecidableEq κ] {key : α → κ}

def pushNew (key : α → κ) (l : List α) (x : α) : List α := if l.any fun y => key y == key x then l else l ++ [x]

theorem mem_of_mem_foldl_pushNew {xs l : List α} {z : α} (h : z ∈ xs.foldl (pushNew key) l) : z ∈ l ∨ z ∈ xs := by
  induction xs generalizing l with
  | nil => exact .inl h
  | cons x xs ih =>
    rcases ih h with hl | hxs
    · unfold pushNew at hl
      split_ifs at hl
      · exact .inl hl
      · rcases List.mem_append.mp hl with hl | hx
        · exact .inl hl
        · exact .inr (List.mem_singleton.mp hx ▸ List.mem_cons_self)
    · exact .inr (List.mem_cons_of_mem _ hxs)

theorem subset_pushNew {l : List α} (x : α) : l ⊆ pushNew key l x := by
  unfold pushNew
  split_ifs
  · exact List.Subset.refl l
  · exact List.subset_append_left l _

theorem subset_foldl_pushNew {l : List α} (xs : List α) : l ⊆ xs.foldl (pushNew key) l := by
  induction xs generalizing l with
  | nil => exact List.Subset.refl l
  | cons x xs ih => exact List.Subset.trans (subset_pushNew x) ih

variable (key) in
theorem key_mem_pushNew {l : List α} (x : α) : ∃ z ∈ pushNew key l x, key z = key x := by
  unfold pushNew
  split_ifs with h
  · obtain ⟨y, hy, heq⟩ := List.any_eq_true.mp h
    exact ⟨y, hy, by simpa using heq⟩
  · exact ⟨x, by simp, rfl⟩

variable (key) in
theorem key_mem_foldl_pushNew {xs l : List α} {x : α} (hx : x ∈ xs) : ∃ z ∈ xs.foldl (pushNew key) l, key z = key x := by
  induction xs generalizing l with
  | nil => cases hx
  | cons y xs ih =>
    rcases List.mem_cons.mp hx with rfl | hx
    · obtain ⟨z, hz, heq⟩ := key_mem_pushNew key (l := l) x
      exact ⟨z, subset_foldl_pushNew xs hz, heq⟩
    · exact ih hx

theorem nodup_pushNew {l : List α} {x : α} (h : (l.map key).Nodup) : ((pushNew key l x).map key).Nodup := by
  unfold pushNew
  split_ifs with hany
  · exact h
  · rw [List.map_append, List.map_singleton, List.nodup_append]
    refine ⟨h, List.nodup_singleton _, ?_⟩
    intro k hk k' hk'
    obtain ⟨y, hy, rfl⟩ := List.mem_map.mp hk
    rw [List.mem_singleton.mp hk']
    intro heq
    exact hany (List.any_eq_true.mpr ⟨y, hy, by simpa using heq⟩)

theorem nodup_foldl_pushNew {l : List α} (xs : List α) (h : (l.map key).Nodup) :
    ((xs.foldl (pushNew key) l).map key).Nodup := by
  induction xs generalizing l with
  | nil => exact h
  | cons x xs ih => exact ih (nodup_pushNew h)

end AnimaCore.Lib
