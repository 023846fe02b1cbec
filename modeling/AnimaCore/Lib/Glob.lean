import Mathlib

/-!
# AnimaCore.Lib.Glob — wildcard patterns and the loop with one backtrack

A pattern is a list of tokens: a star stands for a run, every other token for one letter.  `Reads leaves p t` says that
the pattern reads the whole text, when `leaves x t b` says which rest `b` a star `x` may leave of a text `t`.

* `AnyRun`: a star leaves any end of the text.
* `LiteralFirst`: a star that fits the next letter takes that letter only.
* `Scan.run` is the loop that remembers its last star only, and compares letters before it looks for a star.
* `Scan.run_spec`: with fuel for all its rounds the loop decides `LiteralFirst`.
* `headD_rows_iff`: filled from its last entry, the table over both lists decides `AnyRun`.
-/

namespace AnimaCore.Lib.Glob

variable {σ α : Type}

/-! ## What a pattern reads -/

def Reads (star : σ → Bool) (fits : σ → α → Prop) (leaves : σ → List α → List α → Prop) : List σ → List α → Prop
  | [], t => t = []
  | x :: p, t =>
    (star x = true ∧ ∃ b, leaves x t b ∧ Reads star fits leaves p b) ∨
      (star x = false ∧ ∃ c b, t = c :: b ∧ fits x c ∧ Reads star fits leaves p b)

def AnyRun (_ : σ) (t b : List α) : Prop := b <:+ t

/-- A star that fits the next letter takes it and nothing else; another star leaves any end of the text. -/
def LiteralFirst (fits : σ → α → Bool) (x : σ) (t b : List α) : Prop :=
  if t.head?.any (fits x) then b = t.tail else b <:+ t

section

variable {star : σ → Bool} {fits fits' : σ → α → Prop} {leaves leaves' : σ → List α → List α → Prop} {x : σ} {p : List σ}
  {c : α} {t : List α}

theorem reads_nil : Reads star fits leaves [] t ↔ t = [] := Iff.rfl

theorem reads_star (hx : star x = true) :
    Reads star fits leaves (x :: p) t ↔ ∃ b, leaves x t b ∧ Reads star fits leaves p b := by
  simp [Reads, hx]

theorem reads_one (hx : star x = false) :
    Reads star fits leaves (x :: p) t ↔ ∃ c b, t = c :: b ∧ fits x c ∧ Reads star fits leaves p b := by
  simp [Reads, hx]

theorem Reads.mono (hfits : ∀ x c, fits x c → fits' x c) (hleaves : ∀ x t b, star x = true → leaves x t b → leaves' x t b)
    (h : Reads star fits leaves p t) : Reads star fits' leaves' p t := by
  induction p generalizing t with
  | nil => exact h
  | cons x p ih =>
    rcases h with ⟨hx, b, hb, h⟩ | ⟨hx, c, b, hb, hc, h⟩
    · exact .inl ⟨hx, b, hleaves x t b hx hb, ih h⟩
    · exact .inr ⟨hx, c, b, hb, hfits x c hc, ih h⟩

theorem reads_end (hleaves : ∀ x b, leaves x [] b ↔ b = []) : Reads star fits leaves p [] ↔ ∀ x ∈ p, star x = true := by
  induction p with
  | nil => simp [Reads]
  | cons x p ih =>
    by_cases hx : star x = true
    · rw [reads_star hx, List.forall_mem_cons]
      constructor
      · rintro ⟨b, hb, h⟩
        rw [hleaves] at hb
        subst hb
        exact ⟨hx, ih.mp h⟩
      · rintro ⟨-, h⟩
        exact ⟨[], (hleaves x []).mpr rfl, ih.mpr h⟩
    · rw [reads_one (by simpa using hx), List.forall_mem_cons]
      constructor
      · rintro ⟨c, b, hb, -⟩
        cases hb
      · rintro ⟨h, -⟩
        exact absurd h hx

theorem literalFirst_nil (fits : σ → α → Bool) (x : σ) (b : List α) : LiteralFirst fits x [] b ↔ b = [] := by
  unfold LiteralFirst
  rw [List.head?_nil, Option.any_none, if_neg (by decide), List.suffix_nil]

theorem LiteralFirst.suffix {fits : σ → α → Bool} {b : List α} (h : LiteralFirst fits x t b) : b <:+ t := by
  unfold LiteralFirst at h
  split_ifs at h
  · exact h ▸ List.tail_suffix t
  · exact h

theorem reads_anyRun_cons (hx : star x = true) :
    Reads star fits AnyRun (x :: p) (c :: t) ↔ Reads star fits AnyRun p (c :: t) ∨ Reads star fits AnyRun (x :: p) t := by
  rw [reads_star hx, reads_star hx]
  constructor
  · rintro ⟨b, hb, h⟩
    rcases List.suffix_cons_iff.mp hb with rfl | hb
    · exact .inl h
    · exact .inr ⟨b, hb, h⟩
  · rintro (h | ⟨b, hb, h⟩)
    · exact ⟨c :: t, List.suffix_rfl, h⟩
    · exact ⟨b, List.IsSuffix.trans hb (List.suffix_cons c t), h⟩

theorem reads_star_star {y : σ} (hx : star x = true) (hy : star y = true) :
    Reads star fits AnyRun (x :: y :: p) t ↔ Reads star fits AnyRun (y :: p) t := by
  rw [reads_star hx, reads_star hy]
  constructor
  · rintro ⟨b, hb, h⟩
    obtain ⟨d, hd, h⟩ := (reads_star hy).mp h
    exact ⟨d, List.IsSuffix.trans hd hb, h⟩
  · rintro ⟨b, hb, h⟩
    exact ⟨t, List.suffix_rfl, (reads_star hy).mpr ⟨b, hb, h⟩⟩

end

/-! ## The loop -/

/-- The loop: what is left of the pattern and of the text, and for the last star what follows it in the pattern and the
text it leaves. -/
structure Scan (σ α : Type) where
  pattern : List σ
  text : List α
  star : Option (List σ × List α)
  deriving DecidableEq, Repr

namespace Scan

variable (star : σ → Bool) (fits : σ → α → Bool)

def retry (s : Scan σ α) : Bool ⊕ Scan σ α :=
  match s.star with
  | some (after, mark) => .inr { pattern := after, text := mark.tail, star := some (after, mark.tail) }
  | none => .inl false

/-- One round: the answer, or where the loop goes on. -/
def step (s : Scan σ α) : Bool ⊕ Scan σ α :=
  match s.text, s.pattern with
  | [], pattern => .inl (pattern.all star)
  | _ :: _, [] => s.retry
  | c :: text, x :: pattern =>
    if fits x c then .inr { s with pattern := pattern, text := text }
    else if star x then .inr { s with pattern := pattern, star := some (pattern, s.text) }
    else s.retry

def run : ℕ → Scan σ α → Option Bool
  | 0, _ => none
  | fuel + 1, s =>
    match s.step star fits with
    | .inl answer => some answer
    | .inr s => run fuel s

/-- What the answer should be: the rest of the pattern reads the rest of the text, or the last star takes more. -/
def Accepts (s : Scan σ α) : Prop :=
  Reads star (fun x c => fits x c = true) (LiteralFirst fits) s.pattern s.text ∨
    ∃ after mark, s.star = some (after, mark) ∧
      ∃ b, b <:+ mark.tail ∧ Reads star (fun x c => fits x c = true) (LiteralFirst fits) after b

/-- The loop has lost nothing: whatever the last star leaves, the rest of the pattern reads an end of the rest of the
text. -/
structure Kept (n : ℕ) (s : Scan σ α) : Prop where
  pattern : s.pattern.length ≤ n
  after : ∀ after mark, s.star = some (after, mark) → after.length ≤ n
  mark : ∀ after mark, s.star = some (after, mark) → s.text <:+ mark
  ahead : ∀ after mark, s.star = some (after, mark) → ∀ b, b <:+ mark →
    Reads star (fun x c => fits x c = true) (LiteralFirst fits) after b →
      ∃ d, d <:+ s.text ∧ Reads star (fun x c => fits x c = true) (LiteralFirst fits) s.pattern d

/-- The letters the last star may still take count first, then the pattern. -/
def size (n : ℕ) (s : Scan σ α) : ℕ :=
  (match s.star with | some (_, mark) => mark.length | none => s.text.length + 1) * (n + 1) + s.pattern.length

variable {star : σ → Bool} {fits : σ → α → Bool} {n : ℕ} {s s' : Scan σ α} {x : σ} {c : α} {p : List σ} {t : List α}

theorem kept_start (p : List σ) (t : List α) : Kept star fits p.length ⟨p, t, none⟩ where
  pattern := le_rfl
  after _ _ h := absurd h (by simp)
  mark _ _ h := absurd h (by simp)
  ahead _ _ h := absurd h (by simp)

theorem exists_suffix_reads {b : List α} (hfits : fits x c = true) (hb : b <:+ c :: t)
    (h : Reads star (fun x c => fits x c = true) (LiteralFirst fits) (x :: p) b) :
    ∃ d, d <:+ t ∧ Reads star (fun x c => fits x c = true) (LiteralFirst fits) p d := by
  rcases h with ⟨-, d, hd, h⟩ | ⟨-, e, d, rfl, -, h⟩
  · rcases List.suffix_cons_iff.mp hb with rfl | hb
    · unfold LiteralFirst at hd
      rw [List.head?_cons, Option.any_some, if_pos hfits, List.tail_cons] at hd
      exact ⟨d, hd ▸ List.suffix_rfl, h⟩
    · exact ⟨d, hd.suffix.trans hb, h⟩
  · refine ⟨d, ?_, h⟩
    rcases List.suffix_cons_iff.mp hb with heq | hb
    · cases heq
      exact List.suffix_rfl
    · exact (List.suffix_cons e d).trans hb

theorem reads_fits (hfits : fits x c = true) :
    Reads star (fun x c => fits x c = true) (LiteralFirst fits) (x :: p) (c :: t) ↔
      Reads star (fun x c => fits x c = true) (LiteralFirst fits) p t := by
  by_cases hx : star x = true
  · rw [reads_star hx]
    simp [LiteralFirst, hfits]
  · rw [reads_one (by simpa using hx)]
    constructor
    · rintro ⟨d, b, heq, -, h⟩
      cases heq
      exact h
    · intro h
      exact ⟨c, t, rfl, hfits, h⟩

theorem reads_star_of_not_fits (hx : star x = true) (hfits : fits x c = false) :
    Reads star (fun x c => fits x c = true) (LiteralFirst fits) (x :: p) (c :: t) ↔
      ∃ b, b <:+ c :: t ∧ Reads star (fun x c => fits x c = true) (LiteralFirst fits) p b := by
  rw [reads_star hx]
  simp [LiteralFirst, hfits]

theorem read_spec (h : Kept star fits n s) (hp : s.pattern = x :: p) (ht : s.text = c :: t) (hfits : fits x c = true) :
    let s' : Scan σ α := { s with pattern := p, text := t }
    Kept star fits n s' ∧ s'.size n < s.size n ∧ (s'.Accepts star fits ↔ s.Accepts star fits) := by
  have hsuffix : t <:+ s.text := ht ▸ List.suffix_cons c t
  refine ⟨⟨?_, h.after, ?_, ?_⟩, ?_, ?_⟩
  · have hlength := h.pattern
    rw [hp, List.length_cons] at hlength
    show p.length ≤ n
    omega
  · intro after mark hs
    exact hsuffix.trans (h.mark after mark hs)
  · intro after mark hs b hb hreads
    obtain ⟨d, hd, hread⟩ := h.ahead after mark hs b hb hreads
    rw [hp] at hread
    rw [ht] at hd
    exact exists_suffix_reads hfits hd hread
  · have hlength : s.text.length = t.length + 1 := by rw [ht, List.length_cons]
    have hpattern : s.pattern.length = p.length + 1 := by rw [hp, List.length_cons]
    unfold size
    rcases s.star with _ | ⟨after, mark⟩
    · show (t.length + 1) * (n + 1) + p.length < (s.text.length + 1) * (n + 1) + s.pattern.length
      have hle : (t.length + 1) * (n + 1) ≤ (s.text.length + 1) * (n + 1) := Nat.mul_le_mul_right _ (by omega)
      omega
    · show mark.length * (n + 1) + p.length < mark.length * (n + 1) + s.pattern.length
      omega
  · unfold Accepts
    rw [hp, ht, reads_fits hfits]

theorem star_spec (h : Kept star fits n s) (hp : s.pattern = x :: p) (ht : s.text = c :: t) (hfits : fits x c = false)
    (hx : star x = true) :
    let s' : Scan σ α := { s with pattern := p, star := some (p, s.text) }
    Kept star fits n s' ∧ s'.size n < s.size n ∧ (s'.Accepts star fits ↔ s.Accepts star fits) := by
  have hlength : p.length + 1 = s.pattern.length := by rw [hp, List.length_cons]
  have hle := h.pattern
  refine ⟨⟨?_, ?_, ?_, ?_⟩, ?_, ?_⟩
  · show p.length ≤ n
    omega
  · intro after mark hs
    cases hs
    omega
  · intro after mark hs
    cases hs
    exact List.suffix_rfl
  · intro after mark hs b hb hreads
    cases hs
    exact ⟨b, hb, hreads⟩
  · unfold size
    show s.text.length * (n + 1) + p.length < _
    rcases hs : s.star with _ | ⟨after, mark⟩
    · show _ < (s.text.length + 1) * (n + 1) + s.pattern.length
      rw [Nat.succ_mul]
      omega
    · show _ < mark.length * (n + 1) + s.pattern.length
      have hmark : s.text.length * (n + 1) ≤ mark.length * (n + 1) :=
        Nat.mul_le_mul_right _ (h.mark after mark hs).length_le
      omega
  · unfold Accepts
    rw [hp, ht, reads_star_of_not_fits hx hfits]
    constructor
    · rintro (hreads | ⟨after, mark, hs, b, hb, hreads⟩)
      · exact .inl ⟨c :: t, List.suffix_rfl, hreads⟩
      · cases hs
        exact .inl ⟨b, List.IsSuffix.trans hb (List.suffix_cons c t), hreads⟩
    · have hthis : (∃ b, b <:+ c :: t ∧ Reads star (fun x c => fits x c = true) (LiteralFirst fits) p b) →
          Reads star (fun x c => fits x c = true) (LiteralFirst fits) p (c :: t) ∨
            ∃ after mark, some (p, c :: t) = some (after, mark) ∧
              ∃ b, b <:+ mark.tail ∧ Reads star (fun x c => fits x c = true) (LiteralFirst fits) after b := by
        rintro ⟨b, hb, hreads⟩
        rcases List.suffix_cons_iff.mp hb with rfl | hb
        · exact .inl hreads
        · exact .inr ⟨p, c :: t, rfl, b, hb, hreads⟩
      rintro (hreads | ⟨after, mark, hs, b, hb, hreads⟩)
      · exact hthis hreads
      · -- The older star is given up here.
        obtain ⟨d, hd, hread⟩ := h.ahead after mark hs b (List.IsSuffix.trans hb (List.tail_suffix mark)) hreads
        rw [hp] at hread
        obtain ⟨e, he, hread⟩ := (reads_star hx).mp hread
        exact hthis ⟨e, (he.suffix.trans hd).trans (ht ▸ List.suffix_rfl), hread⟩

theorem retry_spec (h : Kept star fits n s) (ht : s.text = c :: t)
    (hno : ¬ Reads star (fun x c => fits x c = true) (LiteralFirst fits) s.pattern s.text) :
    (∃ answer, s.retry = .inl answer ∧ (answer = true ↔ s.Accepts star fits)) ∨
      ∃ s', s.retry = .inr s' ∧ Kept star fits n s' ∧ s'.size n < s.size n ∧
        (s'.Accepts star fits ↔ s.Accepts star fits) := by
  rcases hs : s.star with _ | ⟨after, mark⟩
  · left
    refine ⟨false, by unfold retry; rw [hs], ?_⟩
    unfold Accepts
    rw [hs]
    simp [hno]
  · right
    have hmark := (h.mark after mark hs).length_le
    have hlength : s.text.length = t.length + 1 := by rw [ht, List.length_cons]
    refine ⟨{ pattern := after, text := mark.tail, star := some (after, mark.tail) }, by unfold retry; rw [hs],
      ⟨h.after after mark hs, ?_, ?_, ?_⟩, ?_, ?_⟩
    · intro after' mark' hs'
      cases hs'
      exact h.after after mark hs
    · intro after' mark' hs'
      cases hs'
      exact List.suffix_rfl
    · intro after' mark' hs' b hb hreads
      cases hs'
      exact ⟨b, hb, hreads⟩
    · have hafter := h.after after mark hs
      have hmul : mark.tail.length * (n + 1) + (n + 1) = mark.length * (n + 1) := by
        rw [List.length_tail, ← Nat.succ_mul]
        congr 1
        omega
      unfold size
      rw [hs]
      show mark.tail.length * (n + 1) + after.length < mark.length * (n + 1) + s.pattern.length
      omega
    · unfold Accepts
      constructor
      · rintro (hreads | ⟨after', mark', hs', b, hb, hreads⟩)
        · exact .inr ⟨after, mark, hs, mark.tail, List.suffix_rfl, hreads⟩
        · cases hs'
          exact .inr ⟨after, mark, hs, b, List.IsSuffix.trans hb (List.tail_suffix _), hreads⟩
      · rintro (hreads | ⟨after', mark', hs', b, hb, hreads⟩)
        · exact absurd hreads hno
        · rw [hs] at hs'
          cases hs'
          show Reads _ _ _ after mark.tail ∨ _
          rcases htail : mark.tail with _ | ⟨d, rest⟩
          · rw [htail, List.suffix_nil] at hb
            exact .inl (hb ▸ hreads)
          · rw [htail] at hb
            rcases List.suffix_cons_iff.mp hb with rfl | hb
            · exact .inl hreads
            · exact .inr ⟨after, d :: rest, rfl, b, hb, hreads⟩

/-- **What one round does.**  Its answer is right, and where it goes on nothing is lost and less is left. -/
theorem step_spec (h : Kept star fits n s) :
    (∃ answer, s.step star fits = .inl answer ∧ (answer = true ↔ s.Accepts star fits)) ∨
      ∃ s', s.step star fits = .inr s' ∧ Kept star fits n s' ∧ s'.size n < s.size n ∧
        (s'.Accepts star fits ↔ s.Accepts star fits) := by
  unfold step
  rcases ht : s.text with _ | ⟨c, t⟩
  · left
    refine ⟨s.pattern.all star, rfl, ?_⟩
    rw [List.all_eq_true, ← reads_end (literalFirst_nil fits)]
    unfold Accepts
    rw [ht]
    constructor
    · intro hreads
      exact .inl hreads
    · rintro (hreads | ⟨after, mark, hs, b, hb, hreads⟩)
      · exact hreads
      · obtain ⟨d, hd, hread⟩ := h.ahead after mark hs b (List.IsSuffix.trans hb (List.tail_suffix mark)) hreads
        rw [ht, List.suffix_nil] at hd
        exact hd ▸ hread
  · rcases hp : s.pattern with _ | ⟨x, p⟩
    · refine retry_spec h ht ?_
      rw [hp, ht]
      intro hreads
      exact absurd (reads_nil.mp hreads) (by simp)
    · simp only
      by_cases hfits : fits x c = true
      · rw [if_pos hfits]
        exact .inr ⟨_, rfl, read_spec h hp ht hfits⟩
      rw [if_neg hfits]
      rw [Bool.not_eq_true] at hfits
      by_cases hx : star x = true
      · rw [if_pos hx, ← ht]
        exact .inr ⟨_, rfl, star_spec h hp ht hfits hx⟩
      · rw [if_neg hx]
        refine retry_spec h ht ?_
        rw [hp, ht, reads_one (by simpa using hx)]
        rintro ⟨d, b, heq, hd, -⟩
        cases heq
        rw [hfits] at hd
        cases hd

theorem run_spec (fuel : ℕ) (h : Kept star fits n s) (hfuel : s.size n < fuel) :
    ∃ answer, s.run star fits fuel = some answer ∧ (answer = true ↔ s.Accepts star fits) := by
  induction fuel generalizing s with
  | zero => omega
  | succ fuel ih =>
    unfold run
    rcases step_spec h with ⟨answer, hstep, hanswer⟩ | ⟨s', hstep, hkept, hsize, haccepts⟩
    · rw [hstep]
      exact ⟨answer, rfl, hanswer⟩
    · rw [hstep]
      obtain ⟨answer, hrun, hanswer⟩ := ih hkept (by omega)
      exact ⟨answer, hrun, hanswer.trans haccepts⟩

end Scan

def rounds (p : List σ) (t : List α) : ℕ := (t.length + 1) * (p.length + 1) + p.length + 1

/-- **The loop decides what a pattern reads when its stars take a letter that fits them.** -/
theorem exists_run_eq (star : σ → Bool) (fits : σ → α → Bool) (p : List σ) (t : List α) :
    ∃ answer, Scan.run star fits (rounds p t) ⟨p, t, none⟩ = some answer ∧
      (answer = true ↔ Reads star (fun x c => fits x c = true) (LiteralFirst fits) p t) := by
  have hkept : Scan.Kept star fits p.length ⟨p, t, none⟩ := Scan.kept_start p t
  obtain ⟨answer, hrun, hanswer⟩ := Scan.run_spec (rounds p t) hkept
    (by unfold Scan.size rounds; exact Nat.lt_succ_self _)
  refine ⟨answer, hrun, hanswer.trans ?_⟩
  unfold Scan.Accepts
  simp

def scan (star : σ → Bool) (fits : σ → α → Bool) (p : List σ) (t : List α) : Bool :=
  (Scan.run star fits (rounds p t) ⟨p, t, none⟩).getD false

theorem scan_iff (star : σ → Bool) (fits : σ → α → Bool) (p : List σ) (t : List α) :
    scan star fits p t = true ↔ Reads star (fun x c => fits x c = true) (LiteralFirst fits) p t := by
  obtain ⟨answer, hrun, hanswer⟩ := exists_run_eq star fits p t
  unfold scan
  rw [hrun]
  exact hanswer

/-! ## The table -/

section

variable (star : σ → Bool) (fits : σ → α → Bool)

/-- One row of the table: entry `j` says whether the pattern from here on reads the text from letter `j` on.  `below` is
the row of the pattern without its first token. -/
def row (x : σ) : List α → List Bool → List Bool
  | [], below => [star x && below.headD false]
  | c :: t, below =>
    let after := row x t below.tail
    (if star x then below.headD false || after.headD false else fits x c && below.tail.headD false) :: after

def lastRow : List α → List Bool
  | [] => [true]
  | _ :: t => false :: lastRow t

def rows (p : List σ) (t : List α) : List Bool := p.foldr (fun x below => row star fits x t below) (lastRow t)

/-- A row is right: it has an entry for each end of the text. -/
def RowOf (holds : List α → Prop) : List α → List Bool → Prop
  | [], entries => ∃ e, entries = [e] ∧ (e = true ↔ holds [])
  | c :: t, entries => ∃ e rest, entries = e :: rest ∧ (e = true ↔ holds (c :: t)) ∧ RowOf holds t rest

variable {star fits} {x : σ} {p : List σ}

theorem RowOf.head {holds : List α → Prop} {t : List α} {entries : List Bool} (h : RowOf holds t entries) :
    entries.headD false = true ↔ holds t := by
  cases t with
  | nil =>
    obtain ⟨e, rfl, he⟩ := h
    exact he
  | cons c t =>
    obtain ⟨e, rest, rfl, he, -⟩ := h
    exact he

theorem rowOf_lastRow {leaves : σ → List α → List α → Prop} {one : σ → α → Prop} (t : List α) :
    RowOf (Reads star one leaves []) t (lastRow t) := by
  induction t with
  | nil => exact ⟨true, rfl, by simp [reads_nil]⟩
  | cons c t ih => exact ⟨false, _, rfl, by simp [reads_nil], ih⟩

theorem rowOf_row (t : List α) (below : List Bool)
    (h : RowOf (Reads star (fun x c => fits x c = true) AnyRun p) t below) :
    RowOf (Reads star (fun x c => fits x c = true) AnyRun (x :: p)) t (row star fits x t below) := by
  induction t generalizing below with
  | nil =>
    refine ⟨_, rfl, ?_⟩
    have hhead := h.head
    by_cases hx : star x = true
    · rw [reads_star hx, hx, Bool.true_and, hhead]
      constructor
      · intro hreads
        exact ⟨[], List.suffix_rfl, hreads⟩
      · rintro ⟨b, hb, hreads⟩
        exact List.suffix_nil.mp hb ▸ hreads
    · rw [reads_one (by simpa using hx)]
      simp [hx]
  | cons c t ih =>
    obtain ⟨e, rest, rfl, he, hrest⟩ := h
    have hafter := ih rest hrest
    refine ⟨_, _, rfl, ?_, hafter⟩
    by_cases hx : star x = true
    · rw [if_pos hx, reads_anyRun_cons hx, Bool.or_eq_true, List.tail_cons, hafter.head, List.headD_cons, he]
    · rw [if_neg hx, Bool.and_eq_true, List.tail_cons, hrest.head, reads_one (by simpa using hx)]
      constructor
      · rintro ⟨hfits, hreads⟩
        exact ⟨c, t, rfl, hfits, hreads⟩
      · rintro ⟨d, b, heq, hfits, hreads⟩
        cases heq
        exact ⟨hfits, hreads⟩

/-- **The table decides what a pattern reads.** -/
theorem headD_rows_iff (p : List σ) (t : List α) :
    (rows star fits p t).headD false = true ↔ Reads star (fun x c => fits x c = true) AnyRun p t := by
  have hrows : RowOf (Reads star (fun x c => fits x c = true) AnyRun p) t (rows star fits p t) := by
    induction p with
    | nil => exact rowOf_lastRow t
    | cons x p ih => exact rowOf_row t _ ih
  exact hrows.head

end

end AnimaCore.Lib.Glob
