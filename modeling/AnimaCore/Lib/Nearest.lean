import AnimaCore.Lib.TopK

/-!
# AnimaCore.Lib.Nearest — the first few elements of a set

* `Nearest cmp k S l`: the list has, in the order of `cmp`, the first `k` elements of `S`, or all of them.
* `nearest_take`: the front of a sorted list.  `filter_behind`: what comes behind one of its elements.
* `Nearest.widen`: the nearest of a part are the nearest of the whole, if whatever is left out comes after `k` others.
* `nearest_of_page`: the same where the part was filled from a page of one more than is needed, and whether there is more.
* `Nearest.place`: one more element, put in its place of a list that is cut to `k`.
-/

namespace AnimaCore.Lib

variable {α : Type} {cmp : α → α → Ordering} {k : ℕ} {S T : α → Prop} {l : List α} {a : α}

/-- The first `k` elements of a set, or all of them. -/
structure Nearest (cmp : α → α → Ordering) (k : ℕ) (S : α → Prop) (l : List α) : Prop where
  sorted : l.Pairwise fun a b => (cmp a b).isLT = true
  length_le : l.length ≤ k
  sound : ∀ a ∈ l, S a
  covers : ∀ a, S a → a ∈ l ∨ (l.length = k ∧ ∀ b ∈ l, (cmp b a).isLT = true)

theorem nearest_nil : Nearest cmp k (fun _ => False) [] where
  sorted := .nil
  length_le := Nat.zero_le _
  sound := by simp
  covers := fun _ h => h.elim

theorem Nearest.congr (h : Nearest cmp k S l) (hS : ∀ a, S a ↔ T a) : Nearest cmp k T l where
  sorted := h.sorted
  length_le := h.length_le
  sound := fun a ha => (hS a).mp (h.sound a ha)
  covers := fun a ha => h.covers a ((hS a).mpr ha)

theorem nearest_take (hl : l.Pairwise fun a b => (cmp a b).isLT = true) (k : ℕ) : Nearest cmp k (· ∈ l) (l.take k) where
  sorted := hl.sublist (List.take_sublist k l)
  length_le := List.length_take_le k l
  sound := fun a ha => List.mem_of_mem_take ha
  covers := by
    intro a ha
    rw [← List.take_append_drop k l] at ha hl
    rcases List.mem_append.mp ha with ha | ha
    · exact Or.inl ha
    · right
      have hlong : k < l.length := by
        have hne := List.length_pos_of_mem ha
        rw [List.length_drop] at hne
        omega
      refine ⟨by rw [List.length_take]; omega, fun b hb => ?_⟩
      exact (List.pairwise_append.mp hl).2.2 b hb a ha

variable [Std.TransCmp cmp]

theorem filter_behind {front back : List α} (hl : (front ++ a :: back).Pairwise fun a b => (cmp a b).isLT = true) :
    (front ++ a :: back).filter (fun b => (cmp a b).isLT) = back := by
  obtain ⟨-, hback, hcross⟩ := List.pairwise_append.mp hl
  have hfront : front.filter (fun b => (cmp a b).isLT) = [] := by
    refine List.filter_eq_nil_iff.mpr fun b hb => ?_
    rw [isLT_asymm b a (hcross b hb a List.mem_cons_self)]
    decide
  have hself : ¬(cmp a a).isLT = true := by
    intro hlt
    have hnot := isLT_asymm a a hlt
    rw [hlt] at hnot
    cases hnot
  have hrest : back.filter (fun b => (cmp a b).isLT) = back :=
    List.filter_eq_self.mpr fun b hb => List.rel_of_pairwise_cons hback hb
  rw [List.filter_append, hfront, List.filter_cons, if_neg hself, hrest, List.nil_append]

theorem nodup_of_sorted (hl : l.Pairwise fun a b => (cmp a b).isLT = true) : l.Nodup := by
  refine hl.imp ?_
  rintro a b hlt rfl
  have hnot := isLT_asymm a a hlt
  rw [hlt] at hnot
  cases hnot

/-- **The nearest of a part are the nearest of the whole**, if `k` elements of the part come before whatever it leaves out. -/
theorem Nearest.widen (h : Nearest cmp k S l) (hsub : ∀ a, S a → T a)
    (hout : ∀ a, T a → S a ∨ ∃ page : List α, page.Nodup ∧ k ≤ page.length ∧ ∀ b ∈ page, S b ∧ (cmp b a).isLT = true) :
    Nearest cmp k T l where
  sorted := h.sorted
  length_le := h.length_le
  sound := fun a ha => hsub a (h.sound a ha)
  covers := by
    intro a ha
    rcases hout a ha with hin | ⟨page, hnd, hlong, hpage⟩
    · exact h.covers a hin
    right
    by_cases hall : page ⊆ l
    · -- the page is the list
      have hsame : l.length = k := by
        have hle := (List.subperm_of_subset hnd hall).length_le
        have hshort := h.length_le
        omega
      have hback : l ⊆ page := by
        have hperm := (List.subperm_of_subset hnd hall).perm_of_length_le (by omega)
        exact hperm.symm.subset
      exact ⟨hsame, fun b hb => (hpage b (hback hb)).2⟩
    · obtain ⟨c, hc, hout⟩ : ∃ c ∈ page, c ∉ l := by
        by_contra hnone
        refine hall fun c hc => ?_
        by_contra hcl
        exact hnone ⟨c, hc, hcl⟩
      rcases h.covers c (hpage c hc).1 with hin | ⟨hfull, hbefore⟩
      · exact absurd hin hout
      · exact ⟨hfull, fun b hb => isLT_trans (hbefore b hb) (hpage c hc).2⟩

/-- **A page of one more than is needed**: what was gathered is sorted and cut; whoever is left out is beyond the cut of what was
gathered, or beyond a full page. -/
theorem nearest_of_page {gathered page : List α} (hsorted : gathered.Pairwise fun a b => (cmp a b).isLT = true)
    (hpage : page.Pairwise fun a b => (cmp a b).isLT = true) (hsub : ∀ a ∈ gathered, T a) (hin : ∀ a ∈ page, a ∈ gathered)
    (hcovers : ∀ a, T a → a ∈ gathered ∨ (page.length = k + 1 ∧ ∀ b ∈ page, (cmp b a).isLT = true)) :
    Nearest cmp k T (gathered.take k) ∧
      ∀ a, T a → a ∉ gathered.take k → k < gathered.length ∨ k + 1 ≤ page.length := by
  constructor
  · refine (nearest_take hsorted k).widen hsub fun a ha => ?_
    rcases hcovers a ha with h | ⟨hfull, hbefore⟩
    · exact Or.inl h
    · exact Or.inr ⟨page, nodup_of_sorted hpage, by omega, fun b hb => ⟨hin b hb, hbefore b hb⟩⟩
  · intro a ha hout
    rcases hcovers a ha with h | ⟨hfull, -⟩
    · left
      by_contra hshort
      rw [List.take_of_length_le (by omega)] at hout
      exact hout h
    · exact Or.inr hfull.ge

def place (cmp : α → α → Ordering) (a : α) (l : List α) : List α :=
  (l.takeWhile fun b => (cmp b a).isLT) ++ a :: l.dropWhile fun b => (cmp b a).isLT

omit [Std.TransCmp cmp] in
theorem mem_place {b : α} : b ∈ place cmp a l ↔ b = a ∨ b ∈ l := by
  unfold place
  rw [List.mem_append, List.mem_cons]
  have hsplit : b ∈ l ↔ b ∈ (l.takeWhile fun c => (cmp c a).isLT) ∨ b ∈ l.dropWhile fun c => (cmp c a).isLT := by
    rw [← List.mem_append, List.takeWhile_append_dropWhile]
  rw [hsplit]
  exact or_left_comm

omit [Std.TransCmp cmp] in
theorem place_cons (a c : α) (l : List α) :
    place cmp a (c :: l) = if (cmp c a).isLT then c :: place cmp a l else a :: c :: l := by
  unfold place
  rw [List.takeWhile_cons, List.dropWhile_cons]
  split_ifs <;> rfl

theorem sorted_place (hl : l.Pairwise fun a b => (cmp a b).isLT = true) (hne : ∀ b ∈ l, cmp b a ≠ .eq) :
    (place cmp a l).Pairwise fun a b => (cmp a b).isLT = true := by
  induction l with
  | nil => exact List.pairwise_singleton _ _
  | cons c l ih =>
    rw [List.pairwise_cons] at hl
    have hrest := ih hl.2 fun b hb => hne b (List.mem_cons_of_mem _ hb)
    rw [place_cons]
    by_cases hlt : (cmp c a).isLT = true
    · rw [if_pos hlt, List.pairwise_cons]
      refine ⟨fun b hb => ?_, hrest⟩
      rcases mem_place.mp hb with rfl | hb
      · exact hlt
      · exact hl.1 b hb
    · rw [if_neg hlt]
      have hgt : (cmp a c).isLT = true := by
        have hswap : cmp a c = (cmp c a).swap := Std.OrientedCmp.eq_swap
        have hself := hne c (List.mem_cons_self ..)
        rw [hswap]
        cases hcmp : cmp c a with
        | lt =>
          rw [hcmp] at hlt
          exact absurd rfl hlt
        | eq => exact absurd hcmp hself
        | gt => rfl
      refine List.pairwise_cons.mpr ⟨fun b hb => ?_, List.pairwise_cons.mpr hl⟩
      rcases List.mem_cons.mp hb with rfl | hb
      · exact hgt
      · exact isLT_trans hgt (hl.1 b hb)

/-- **One more element**, put in its place of a list that is cut to `k`. -/
theorem Nearest.place (h : Nearest cmp k S l) (hne : ∀ b, S b → cmp b a ≠ .eq) :
    Nearest cmp k (fun b => S b ∨ b = a) ((Lib.place cmp a l).take k) := by
  have hsorted := sorted_place h.sorted fun b hb => hne b (h.sound b hb)
  refine (nearest_take hsorted k).widen ?_ ?_
  · intro b hb
    rcases mem_place.mp hb with rfl | hb
    · exact Or.inr rfl
    · exact Or.inl (h.sound b hb)
  · rintro b (hb | rfl)
    · rcases h.covers b hb with hin | ⟨hfull, hbefore⟩
      · exact Or.inl (mem_place.mpr (Or.inr hin))
      · exact Or.inr ⟨l, nodup_of_sorted h.sorted, hfull.ge, fun c hc => ⟨mem_place.mpr (Or.inr hc), hbefore c hc⟩⟩
    · exact Or.inl (mem_place.mpr (Or.inl rfl))

end AnimaCore.Lib
