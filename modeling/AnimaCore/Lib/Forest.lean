import Mathlib

/-!
# AnimaCore.Lib.Forest — parent pointers

`parents a` is the parent of a known key, if it has one, and `none` for a key that is not known.

* `climb`: the walk from a key to its root, with the keys already seen; it stops at a repetition or an unknown key.  It
  reaches the top iff no key is above itself and every parent is known (`climb_top`, `climb_of_acyclic`).
* `mark`: the walk that marks what it meets and stops at a mark.  What is marked stays closed upwards (`mark_spec`), so a
  whole loop marks the closure of its keys (`markAll_spec`).
* Both take a bound on their rounds; one more than the number of known keys is enough.
-/

namespace AnimaCore.Lib

variable {κ : Type}

def Up (parents : κ → Option (Option κ)) (a b : κ) : Prop := parents a = some (some b)

/-- `b` is `a` or above it. -/
abbrev Above (parents : κ → Option (Option κ)) : κ → κ → Prop := Relation.ReflTransGen (Up parents)

def Acyclic (parents : κ → Option (Option κ)) : Prop := ∀ a, ¬ Relation.TransGen (Up parents) a a

inductive Climbed
  | top
  | cycle
  | unknown
  | endless
  deriving DecidableEq, Repr

variable [DecidableEq κ]

/-- The climb from a key, with those seen before it. -/
def climb (parents : κ → Option (Option κ)) : ℕ → List κ → Option κ → Climbed
  | _, _, none => .top
  | 0, _, some _ => .endless
  | rounds + 1, seen, some a =>
    if a ∈ seen then .cycle
    else match parents a with
      | none => .unknown
      | some above => climb parents rounds (a :: seen) above

/-- The keys marked by a walk; `none` where an unknown key is looked up. -/
def mark (parents : κ → Option (Option κ)) : ℕ → List κ → Option κ → Option (List κ)
  | _, marked, none => some marked
  | 0, marked, some _ => some marked
  | rounds + 1, marked, some a =>
    if a ∈ marked then some marked
    else match parents a with
      | none => none
      | some above => mark parents rounds (a :: marked) above

variable {parents : κ → Option (Option κ)} {keys seen marked : List κ} {rounds : ℕ} {a b : κ}

/-! ## Climbing -/

theorem climb_top (h : climb parents rounds seen (some a) = .top) (hab : Above parents a b) :
    b ∉ seen ∧ (parents b).isSome := by
  induction rounds generalizing seen a with
  | zero => cases h
  | succ rounds ih =>
    unfold climb at h
    by_cases hseen : a ∈ seen
    · rw [if_pos hseen] at h
      cases h
    · rw [if_neg hseen] at h
      cases hup : parents a with
      | none =>
        rw [hup] at h
        cases h
      | some above =>
        rw [hup] at h
        rcases hab.cases_head with rfl | ⟨c, hac, hcb⟩
        · exact ⟨hseen, by rw [hup]; rfl⟩
        · have habove : above = some c := Option.some.inj (hup.symm.trans hac)
          subst habove
          obtain ⟨hnot, hknown⟩ := ih h hcb
          exact ⟨fun hb => hnot (List.mem_cons_of_mem _ hb), hknown⟩

theorem climb_ends (hkeys : ∀ a, (parents a).isSome → a ∈ keys) (hnd : seen.Nodup) (hseen : seen ⊆ keys)
    (hrounds : keys.length < seen.length + rounds) (above : Option κ) :
    climb parents rounds seen above ≠ .endless := by
  induction rounds generalizing seen above with
  | zero =>
    have hle := (List.subperm_of_subset hnd hseen).length_le
    omega
  | succ rounds ih =>
    cases above with
    | none =>
      unfold climb
      decide
    | some a =>
      unfold climb
      by_cases ha : a ∈ seen
      · rw [if_pos ha]
        decide
      · rw [if_neg ha]
        cases hup : parents a with
        | none => simp
        | some above =>
          have hmem : a ∈ keys := hkeys a (by rw [hup]; rfl)
          have hlen : keys.length < (a :: seen).length + rounds := by
            rw [List.length_cons]
            omega
          exact ih (List.nodup_cons.mpr ⟨ha, hnd⟩) (List.cons_subset.mpr ⟨hmem, hseen⟩) hlen above

theorem climb_of_acyclic (hacyclic : Acyclic parents) (hclosed : ∀ a b, Up parents a b → (parents b).isSome)
    (hkeys : ∀ a, (parents a).isSome → a ∈ keys) {seen : List κ} (hnd : seen.Nodup) (hseen : seen ⊆ keys)
    (hrounds : keys.length < seen.length + rounds) {above : Option κ} (hknown : ∀ a ∈ above, (parents a).isSome)
    (hbelow : ∀ s ∈ seen, ∀ a ∈ above, Relation.TransGen (Up parents) s a) : climb parents rounds seen above = .top := by
  induction rounds generalizing seen above with
  | zero =>
    have hle := (List.subperm_of_subset hnd hseen).length_le
    omega
  | succ rounds ih =>
    cases above with
    | none => unfold climb; rfl
    | some a =>
      unfold climb
      have ha : a ∉ seen := fun ha => hacyclic a (hbelow a ha a rfl)
      rw [if_neg ha]
      obtain ⟨above, hup⟩ := Option.isSome_iff_exists.mp (hknown a rfl)
      rw [hup]
      have hmem : a ∈ keys := hkeys a (hknown a rfl)
      refine ih (List.nodup_cons.mpr ⟨ha, hnd⟩) (List.cons_subset.mpr ⟨hmem, hseen⟩) ?_ ?_ ?_
      · rw [List.length_cons]
        omega
      · rintro b rfl
        exact hclosed a b hup
      · rintro s hs b rfl
        rcases List.mem_cons.mp hs with rfl | hs
        · exact .single hup
        · exact (hbelow s hs a rfl).tail hup

/-! ## Marking -/

def Closed (parents : κ → Option (Option κ)) (marked : List κ) : Prop := ∀ a ∈ marked, ∀ b, Up parents a b → b ∈ marked

omit [DecidableEq κ] in
theorem Closed.above (h : Closed parents marked) (ha : a ∈ marked) (hab : Above parents a b) : b ∈ marked := by
  induction hab with
  | refl => exact ha
  | tail _ hbc ih => exact h _ ih _ hbc

/-- **A walk marks the key it starts from and what is above it.**  Between two rounds the marks are closed but for the key
that comes next. -/
theorem mark_spec (hclosed : ∀ a b, Up parents a b → (parents b).isSome) (hkeys : ∀ a, (parents a).isSome → a ∈ keys)
    (rounds : ℕ) {marked : List κ} (hnd : marked.Nodup) (hmarked : marked ⊆ keys)
    (hrounds : keys.length < marked.length + rounds) (above : Option κ) (hknown : ∀ a ∈ above, (parents a).isSome)
    (hopen : ∀ a ∈ marked, ∀ b, Up parents a b → b ∈ marked ∨ above = some b) :
    ∃ marked', mark parents rounds marked above = some marked' ∧ marked'.Nodup ∧ marked' ⊆ keys ∧
      Closed parents marked' ∧ ∀ b, b ∈ marked' ↔ b ∈ marked ∨ ∃ a ∈ above, Above parents a b := by
  induction rounds generalizing marked above with
  | zero =>
    have hle := (List.subperm_of_subset hnd hmarked).length_le
    omega
  | succ rounds ih =>
    cases above with
    | none =>
      refine ⟨marked, by unfold mark; rfl, hnd, hmarked, fun a ha b hab => ?_, fun b => by simp⟩
      exact (hopen a ha b hab).resolve_right (by simp)
    | some a =>
      unfold mark
      by_cases ha : a ∈ marked
      · rw [if_pos ha]
        have hall : Closed parents marked := by
          intro c hc b hcb
          rcases hopen c hc b hcb with hb | hb
          · exact hb
          · rwa [← Option.some.inj hb]
        refine ⟨marked, rfl, hnd, hmarked, hall, fun b => ⟨.inl, ?_⟩⟩
        rintro (hb | ⟨c, hc, hab⟩)
        · exact hb
        · rw [← Option.some.inj hc] at hab
          exact hall.above ha hab
      · rw [if_neg ha]
        obtain ⟨above, hup⟩ := Option.isSome_iff_exists.mp (hknown a rfl)
        rw [hup]
        have hmem : a ∈ keys := hkeys a (hknown a rfl)
        have hnext : ∀ c ∈ a :: marked, ∀ b, Up parents c b → b ∈ a :: marked ∨ above = some b := by
          intro c hc b hcb
          rcases List.mem_cons.mp hc with rfl | hc
          · exact .inr (Option.some.inj (hup.symm.trans hcb))
          · rcases hopen c hc b hcb with hb | hb
            · exact .inl (List.mem_cons_of_mem _ hb)
            · rw [← Option.some.inj hb]
              exact .inl List.mem_cons_self
        have hlen : keys.length < (a :: marked).length + rounds := by
          rw [List.length_cons]
          omega
        obtain ⟨marked', hrun, hnd', hsub', hclosed', hmem'⟩ := ih (List.nodup_cons.mpr ⟨ha, hnd⟩)
          (List.cons_subset.mpr ⟨hmem, hmarked⟩) hlen above (fun b hb => hclosed a b (hup.trans (congrArg some hb))) hnext
        refine ⟨marked', hrun, hnd', hsub', hclosed', fun b => ?_⟩
        rw [hmem' b]
        constructor
        · rintro (hb | ⟨c, rfl, hcb⟩)
          · rcases List.mem_cons.mp hb with rfl | hb
            · exact .inr ⟨b, rfl, .refl⟩
            · exact .inl hb
          · exact .inr ⟨a, rfl, .head hup hcb⟩
        · rintro (hb | ⟨c, hc, hab⟩)
          · exact .inl (List.mem_cons_of_mem _ hb)
          · rw [← Option.some.inj hc] at hab
            rcases hab.cases_head with rfl | ⟨c, hac, hcb⟩
            · exact .inl List.mem_cons_self
            · exact .inr ⟨c, Option.some.inj (hup.symm.trans hac), hcb⟩

theorem markAll_spec (hclosed : ∀ a b, Up parents a b → (parents b).isSome) (hkeys : ∀ a, (parents a).isSome → a ∈ keys)
    (hrounds : keys.length < rounds) {starts : List κ} (hstarts : ∀ a ∈ starts, (parents a).isSome) :
    ∃ marked, starts.foldlM (fun marked a => mark parents rounds marked (some a)) [] = some marked ∧
      ∀ b, b ∈ marked ↔ ∃ a ∈ starts, Above parents a b := by
  suffices ∃ marked, starts.foldlM (fun marked a => mark parents rounds marked (some a)) [] = some marked ∧
      marked.Nodup ∧ marked ⊆ keys ∧ Closed parents marked ∧ ∀ b, b ∈ marked ↔ ∃ a ∈ starts, Above parents a b by
    obtain ⟨marked, hrun, -, -, -, hmem⟩ := this
    exact ⟨marked, hrun, hmem⟩
  induction starts using List.reverseRecOn with
  | nil => exact ⟨[], rfl, List.nodup_nil, List.nil_subset _, by simp [Closed], by simp⟩
  | append_singleton starts a ih =>
    obtain ⟨marked, hrun, hnd, hsub, hup, hmem⟩ := ih fun c hc => hstarts c (List.mem_append_left _ hc)
    have hlast : a ∈ starts ++ [a] := List.mem_append_right _ List.mem_cons_self
    obtain ⟨marked', hrun', hnd', hsub', hup', hmem'⟩ := mark_spec hclosed hkeys rounds hnd hsub (by omega) (some a)
      (fun c hc => Option.some.inj hc ▸ hstarts a hlast) fun c hc b hcb => .inl (hup c hc b hcb)
    refine ⟨marked', ?_, hnd', hsub', hup', fun b => ?_⟩
    · rw [List.foldlM_append, hrun]
      simp [hrun']
    · rw [hmem' b, hmem b]
      constructor
      · rintro (⟨c, hc, hcb⟩ | ⟨c, hc, hab⟩)
        · exact ⟨c, List.mem_append_left _ hc, hcb⟩
        · rw [← Option.some.inj hc] at hab
          exact ⟨a, hlast, hab⟩
      · rintro ⟨c, hc, hcb⟩
        rcases List.mem_append.mp hc with hc | hc
        · exact .inl ⟨c, hc, hcb⟩
        · exact .inr ⟨a, rfl, by rwa [← List.mem_singleton.mp hc]⟩

end AnimaCore.Lib
