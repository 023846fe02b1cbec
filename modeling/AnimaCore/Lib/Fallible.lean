import Mathlib

/-!
# AnimaCore.Lib.Fallible — code that returns early

Programs in `Except ε` written as a chain of checks.  `ensure` is an early return guarded by a condition, `okOr`
an early return on a missing value, `checkedAdd` an addition that fails on overflow of a `w`-bit word.

* `bind_eq_ok`, `ensure_eq_ok`, `okOr_eq_ok`: a chain of checks succeeds iff every check of it does.  With these
  three a successful run is peeled apart by `obtain`, without unfolding `>>=`; `bind_eq_error` and
  `ensure_eq_error` do the same for a run that returns early, and `bind_ne_error`, `foldlM_ne_error` for one that does
  not end in a given error.
* `foldlM_induction`: an invariant of a fallible loop, indexed by the part of the input already read; `foldlM_total`:
  a loop whose steps all succeed from the invariant.
* `forM_eq_ok`: a fallible `for` loop without state succeeds iff its body does at every element, and
  `exists_of_forM_eq_error`: one that fails, fails at an element; `mapM_eq_ok`: the same for one that makes a list, and
  `mapM_okOr` for one of lookups.
-/

namespace AnimaCore.Lib

variable {ε α β : Type}

/-- Early return with `e` unless `p` holds. -/
def ensure (p : Prop) [Decidable p] (e : ε) : Except ε Unit := if p then .ok () else .error e

/-- Early return with `e` on a missing value. -/
def okOr (o : Option α) (e : ε) : Except ε α :=
  match o with
  | some a => .ok a
  | none => .error e

/-- Addition of `w`-bit words, `none` on overflow. -/
def checkedAdd (w a b : ℕ) : Option ℕ := if a + b < 2 ^ w then some (a + b) else none

/-- Addition of signed `w`-bit words, `none` on overflow. -/
def checkedAddInt (w : ℕ) (a b : ℤ) : Option ℤ :=
  if -2 ^ (w - 1) ≤ a + b ∧ a + b < 2 ^ (w - 1) then some (a + b) else none

@[simp] theorem bind_eq_ok {x : Except ε α} {f : α → Except ε β} {b : β} :
    (x >>= f) = .ok b ↔ ∃ a, x = .ok a ∧ f a = .ok b := by
  cases x with
  | error e => simp [bind, Except.bind]
  | ok a => simp [bind, Except.bind]

@[simp] theorem ensure_eq_ok {p : Prop} [Decidable p] {e : ε} {u : Unit} : ensure p e = .ok u ↔ p := by
  unfold ensure
  by_cases hp : p <;> simp [hp]

theorem map_eq_ok {x : Except ε α} {f : α → β} {b : β} : f <$> x = .ok b ↔ ∃ a, x = .ok a ∧ f a = b := by
  cases x with
  | error e => simp [Functor.map, Except.map]
  | ok a => simp [Functor.map, Except.map]

theorem bind_eq_error {x : Except ε α} {f : α → Except ε β} {e : ε} :
    (x >>= f) = .error e ↔ x = .error e ∨ ∃ a, x = .ok a ∧ f a = .error e := by
  cases x with
  | error e => simp [bind, Except.bind]
  | ok a => simp [bind, Except.bind]

@[simp] theorem ensure_eq_error {p : Prop} [Decidable p] {e e' : ε} : ensure p e = .error e' ↔ ¬p ∧ e = e' := by
  unfold ensure
  by_cases hp : p <;> simp [hp]

@[simp] theorem okOr_eq_ok {o : Option α} {e : ε} {a : α} : okOr o e = .ok a ↔ o = some a := by
  cases o <;> simp [okOr]

@[simp] theorem checkedAdd_eq_some {w a b c : ℕ} :
    checkedAdd w a b = some c ↔ a + b < 2 ^ w ∧ c = a + b := by
  unfold checkedAdd
  by_cases h : a + b < 2 ^ w <;> simp [h, eq_comm]

theorem bind_ne_error {x : Except ε α} {f : α → Except ε β} {e : ε} (hx : x ≠ .error e)
    (hf : ∀ a, x = .ok a → f a ≠ .error e) : (x >>= f) ≠ .error e := by
  intro h
  rcases bind_eq_error.mp h with hx' | ⟨a, ha, hf'⟩
  · exact hx hx'
  · exact hf a ha hf'

theorem foldlM_ne_error {f : β → α → Except ε β} {e : ε} (hf : ∀ b a, f b a ≠ .error e) (l : List α) (b : β) :
    l.foldlM f b ≠ .error e := by
  induction l generalizing b with
  | nil =>
    rw [List.foldlM_nil]
    intro h
    cases h
  | cons a l ih =>
    rw [List.foldlM_cons]
    exact bind_ne_error (hf b a) fun b' _ => ih b'

/-- **Loop rule**: `P` holds of the part read so far and the accumulator. -/
theorem foldlM_induction {f : β → α → Except ε β} {P : List α → β → Prop} {l : List α} {b b' : β}
    (h : l.foldlM f b = .ok b') (h0 : P [] b)
    (hstep : ∀ pre a post c c', l = pre ++ a :: post → P pre c → f c a = .ok c' → P (pre ++ [a]) c') :
    P l b' := by
  induction l using List.reverseRecOn generalizing b' with
  | nil =>
    simp only [List.foldlM_nil] at h
    cases h
    exact h0
  | append_singleton l a ih =>
    rw [List.foldlM_append, bind_eq_ok] at h
    obtain ⟨c, hc, h⟩ := h
    have hP : P l c := ih hc fun pre x post d d' hl =>
      hstep pre x (post ++ [a]) d d' (by rw [hl]; simp)
    simp only [List.foldlM_cons, List.foldlM_nil, bind_eq_ok] at h
    obtain ⟨c', hc', h⟩ := h
    cases h
    exact hstep l a [] c b' rfl hP hc'

/-- **Loop rule for success**: every step from the invariant succeeds and keeps it. -/
theorem foldlM_total {f : β → α → Except ε β} {P : List α → β → Prop} {l : List α} {b : β} (h0 : P [] b)
    (hstep : ∀ pre a post c, l = pre ++ a :: post → P pre c → ∃ c', f c a = .ok c' ∧ P (pre ++ [a]) c') :
    ∃ b', l.foldlM f b = .ok b' ∧ P l b' := by
  induction l using List.reverseRecOn with
  | nil => exact ⟨b, rfl, h0⟩
  | append_singleton l a ih =>
    obtain ⟨c, hc, hP⟩ := ih fun pre x post c hl => hstep pre x (post ++ [a]) c (by rw [hl]; simp)
    obtain ⟨c', hc', hP'⟩ := hstep l a [] c rfl hP
    refine ⟨c', ?_, hP'⟩
    rw [List.foldlM_append, bind_eq_ok]
    exact ⟨c, hc, by simp [hc']⟩

theorem forM_eq_ok {f : α → Except ε Unit} {l : List α} {u : Unit} :
    l.forM f = .ok u ↔ ∀ a ∈ l, f a = .ok () := by
  induction l with
  | nil => simp [List.forM, pure, Except.pure]
  | cons a l ih =>
    rw [List.forM, bind_eq_ok]
    constructor
    · rintro ⟨_, h1, h2⟩ b hb
      rcases List.mem_cons.mp hb with rfl | hb
      · exact h1
      · exact ih.mp h2 b hb
    · intro h
      exact ⟨(), h a (by simp), ih.mpr fun b hb => h b (by simp [hb])⟩

theorem exists_of_forM_eq_error {f : α → Except ε Unit} {l : List α} {e : ε} (h : l.forM f = .error e) :
    ∃ a ∈ l, f a = .error e := by
  induction l with
  | nil => cases h
  | cons a l ih =>
    rw [List.forM, bind_eq_error] at h
    rcases h with hhead | ⟨_, -, htail⟩
    · exact ⟨a, List.mem_cons_self, hhead⟩
    · obtain ⟨b, hb, hfail⟩ := ih htail
      exact ⟨b, List.mem_cons_of_mem _ hb, hfail⟩

theorem mapM_eq_ok {f : α → Except ε β} {l : List α} {r : List β} :
    l.mapM f = .ok r ↔ List.Forall₂ (fun a b => f a = .ok b) l r := by
  induction l generalizing r with
  | nil =>
    rw [List.forall₂_nil_left_iff]
    constructor
    · intro h
      cases h
      rfl
    · rintro rfl
      rfl
  | cons a l ih =>
    rw [List.mapM_cons, List.forall₂_cons_left_iff]
    simp only [bind_eq_ok, pure, Except.pure, Except.ok.injEq, ih]
    constructor
    · rintro ⟨b, hb, bs, hbs, rfl⟩
      exact ⟨b, bs, hb, hbs, rfl⟩
    · rintro ⟨b, bs, hb, hbs, rfl⟩
      exact ⟨b, hb, bs, hbs, rfl⟩

theorem mapM_okOr {f : α → Option β} {l : List α} (e : ε) (h : ∀ a ∈ l, (f a).isSome) : l.mapM (fun a => okOr (f a) e) = .ok (l.filterMap f) := by
  induction l with
  | nil => rfl
  | cons a l ih =>
    obtain ⟨b, hb⟩ := Option.isSome_iff_exists.mp (h a (by simp))
    rw [List.mapM_cons, ih fun a ha => h a (by simp [ha])]
    simp only [hb, List.filterMap_cons]
    rfl

end AnimaCore.Lib
