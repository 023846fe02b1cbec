import AnimaCore.Lib.Fallible
import AnimaCore.Lib.Machine

/-!
# AnimaCore.Lib.Paging — reading a list page by page from a machine that goes on

A page is read in a state, from a cursor, up to a limit; it gives items and the cursor of the next page.  Between two
pages the machine takes any inputs.

* `readAll`: the items of the pages of a plan, and whether the last page was reached.
* `Pages step read limits xs At`: in a state and at a cursor that stand `At` position `n`, a page gives the next items of
  `xs`, and its cursor stands behind them in every later state.
* `Pages.readAll_eq`: under any plan the items read are a first part of the rest of `xs`; all of it, once the last page is
  reached; and a plan longer than the rest reaches it.
-/

namespace AnimaCore.Lib

variable {σ ι γ α ε : Type} {step : σ → ι → σ} {read : σ → Option γ → ℕ → Except ε (List α × Option γ)}
  {limits : ℕ → Prop} {xs : List α} {At : σ → Option γ → ℕ → Prop}

/-- The pages of a plan, each with its limit and the inputs that the machine takes behind it. -/
def readAll (step : σ → ι → σ) (read : σ → Option γ → ℕ → Except ε (List α × Option γ)) :
    List (ℕ × List ι) → σ → Option γ → Except ε (List α × Bool)
  | [], _, _ => .ok ([], false)
  | (limit, inputs) :: plan, s, cursor => do
    let (items, next) ← read s cursor limit
    match next with
    | none => .ok (items, true)
    | some c => do
      let (rest, done) ← readAll step read plan (run step s inputs) (some c)
      return (items ++ rest, done)

structure Pages (step : σ → ι → σ) (read : σ → Option γ → ℕ → Except ε (List α × Option γ)) (limits : ℕ → Prop)
    (xs : List α) (At : σ → Option γ → ℕ → Prop) : Prop where
  pos : ∀ limit, limits limit → 0 < limit
  page : ∀ s cursor n limit, At s cursor n → limits limit →
    ∃ next, read s cursor limit = .ok ((xs.drop n).take limit, next) ∧ (next = none ↔ xs.length ≤ n + limit) ∧
      ∀ c, next = some c → ∀ inputs, At (run step s inputs) (some c) (n + limit)

/-- **Pages are lossless**, whatever the machine does between them. -/
theorem Pages.readAll_eq (h : Pages step read limits xs At) (plan : List (ℕ × List ι))
    (hplan : ∀ turn ∈ plan, limits turn.1) {s : σ} {cursor : Option γ} {n : ℕ} (hat : At s cursor n) :
    ∃ items done, readAll step read plan s cursor = .ok (items, done) ∧ items <+: xs.drop n ∧
      (done = true → items = xs.drop n) ∧ ((xs.drop n).length < plan.length → done = true) := by
  induction plan generalizing s cursor n with
  | nil => exact ⟨[], false, rfl, List.nil_prefix, by simp, by simp⟩
  | cons turn plan ih =>
    obtain ⟨limit, inputs⟩ := turn
    obtain ⟨next, hread, hlast, hnext⟩ := h.page s cursor n limit hat (hplan _ List.mem_cons_self)
    have hpos := h.pos limit (hplan _ List.mem_cons_self)
    cases next with
    | none =>
      have hall : (xs.drop n).take limit = xs.drop n := by
        rw [List.take_of_length_le]
        have := hlast.mp rfl
        simp only [List.length_drop]
        omega
      refine ⟨xs.drop n, true, ?_, List.prefix_rfl, fun _ => rfl, fun _ => rfl⟩
      simp only [readAll, hread, hall]
      rfl
    | some c =>
      have hmore : n + limit < xs.length := by
        by_contra hle
        have := hlast.mpr (by omega)
        cases this
      obtain ⟨rest, done, hrest, hfirst, hdone, hlong⟩ :=
        ih (fun turn hturn => hplan turn (List.mem_cons_of_mem _ hturn)) (hnext c rfl inputs)
      have hsplit : xs.drop n = (xs.drop n).take limit ++ xs.drop (n + limit) := by
        rw [← List.drop_drop, List.take_append_drop]
      refine ⟨(xs.drop n).take limit ++ rest, done, ?_, ?_, ?_, ?_⟩
      · simp only [readAll, hread, hrest, bind, Except.bind]
        rfl
      · nth_rewrite 2 [hsplit]
        exact (List.prefix_append_right_inj _).mpr hfirst
      · intro hd
        rw [hdone hd, ← hsplit]
      · intro hlen
        refine hlong ?_
        simp only [List.length_drop, List.length_cons] at hlen ⊢
        omega

theorem take_of_one_more (limit : ℕ) (l : List α) :
    (if limit < (l.take (limit + 1)).length then (l.take (limit + 1)).dropLast else l.take (limit + 1)) =
      l.take limit := by
  split_ifs with hmore
  · rw [List.dropLast_eq_take, List.take_take]
    congr 1
    simp only [List.length_take] at hmore ⊢
    omega
  · simp only [List.length_take] at hmore
    rw [List.take_of_length_le (by omega), List.take_of_length_le (by omega)]

theorem one_more_iff (limit : ℕ) (l : List α) : limit < (l.take (limit + 1)).length ↔ limit < l.length := by
  rw [List.length_take]
  omega

section Lookups

/-! A page of lookups that all succeed is a page of what they find. -/

variable {β : Type} {f : α → Option β} {l : List α}

theorem length_filterMap (h : ∀ a ∈ l, (f a).isSome) : (l.filterMap f).length = l.length := by
  rw [List.length_filterMap_eq_countP, List.countP_eq_length]
  exact h

theorem filterMap_take (h : ∀ a ∈ l, (f a).isSome) (n : ℕ) : (l.take n).filterMap f = (l.filterMap f).take n := by
  induction l generalizing n with
  | nil => simp
  | cons a l ih =>
    obtain ⟨b, hb⟩ := Option.isSome_iff_exists.mp (h a (by simp))
    cases n with
    | zero => simp
    | succ n => simp [hb, ih fun a ha => h a (by simp [ha])]

theorem filterMap_drop (h : ∀ a ∈ l, (f a).isSome) (n : ℕ) : (l.drop n).filterMap f = (l.filterMap f).drop n := by
  induction l generalizing n with
  | nil => simp
  | cons a l ih =>
    obtain ⟨b, hb⟩ := Option.isSome_iff_exists.mp (h a (by simp))
    cases n with
    | zero => simp
    | succ n => simp [hb, ih fun a ha => h a (by simp [ha])]

end Lookups

end AnimaCore.Lib
