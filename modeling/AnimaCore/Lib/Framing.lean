import Mathlib

/-!
# AnimaCore.Lib.Framing — cutting a stream into frames

A text arrives in chunks.  After each chunk the frames that are complete are cut off its front; a frame that is longer
than a limit, or that cannot be decoded, ends the reading, and so does a rest without a boundary that is longer than the
limit.

* `Stable boundary`: what comes after a boundary does not move it.
* `Framer.read chunks`: the frames, and the rest that is left (none after an error); `Framer.whole x`: the same for a text
  that arrives at once.
* `Framer.Roomy x`: no frame of `x` is within the limit while its delimiter reaches more than one element past it.
* `read_eq_whole`, `independent_iff`: the chunks do not matter exactly for the texts that are roomy.
-/

namespace AnimaCore.Lib

variable {α β : Type}

/-- A boundary is a place and a length, inside the text, and what follows does not change it. -/
structure Stable (boundary : List α → Option (ℕ × ℕ)) : Prop where
  inside : ∀ x i d, boundary x = some (i, d) → 0 < d ∧ i + d ≤ x.length
  extend : ∀ x y r, boundary x = some r → boundary (x ++ y) = some r
  restrict : ∀ x y i d, boundary (x ++ y) = some (i, d) → i + d ≤ x.length → boundary x = some (i, d)

structure Framer (α β : Type) where
  boundary : List α → Option (ℕ × ℕ)
  decode : List α → Option β
  limit : ℕ

/-- What is at the front of a text: not yet a frame, an error, or a frame and how much of the text it takes. -/
inductive Look (β : Type)
  | short
  | bad
  | frame (f : β) (used : ℕ)

namespace Framer

variable (F : Framer α β)

def look (x : List α) : Look β :=
  match F.boundary x with
  | none => if F.limit < x.length then .bad else .short
  | some (i, d) =>
    if F.limit < i then .bad
    else
      match F.decode (x.take i) with
      | none => .bad
      | some f => .frame f (i + d)

/-- The frames at the front of a text, and what is left of it; none after an error. -/
def drain : ℕ → List α → List β × Option (List α)
  | 0, x => ([], some x)
  | n + 1, x =>
    match F.look x with
    | .short => ([], some x)
    | .bad => ([], none)
    | .frame f used => (f :: (drain n (x.drop used)).1, (drain n (x.drop used)).2)

def whole (x : List α) : List β × Option (List α) := F.drain (x.length + 1) x

def feed (s : List β × Option (List α)) (chunk : List α) : List β × Option (List α) :=
  match s.2 with
  | none => s
  | some rest => (s.1 ++ (F.whole (rest ++ chunk)).1, (F.whole (rest ++ chunk)).2)

def read (chunks : List (List α)) : List β × Option (List α) := chunks.foldl F.feed ([], some [])

/-- See the header; `n` bounds the frames that are looked at. -/
def roomy : ℕ → List α → Bool
  | 0, _ => true
  | n + 1, x =>
    match F.look x with
    | .frame _ used => decide (used ≤ F.limit + 1) && roomy n (x.drop used)
    | _ => true

def Roomy (x : List α) : Prop := F.roomy (x.length + 1) x = true

instance (x : List α) : Decidable (F.Roomy x) := inferInstanceAs (Decidable (_ = true))

/-! ## The front of a text -/

variable {F} {x y : List α}

theorem look_frame {f : β} {used : ℕ} (h : F.look x = .frame f used) : ∃ i d, F.boundary x = some (i, d) ∧
    i ≤ F.limit ∧ F.decode (x.take i) = some f ∧ used = i + d := by
  unfold look at h
  rcases hb : F.boundary x with _ | ⟨i, d⟩
  · rw [hb] at h
    simp only at h
    split_ifs at h
  · rw [hb] at h
    simp only at h
    split_ifs at h with hi
    rcases hd : F.decode (x.take i) with _ | g
    · rw [hd] at h
      exact absurd h (by simp)
    · rw [hd] at h
      simp only [Look.frame.injEq] at h
      obtain ⟨rfl, rfl⟩ := h
      exact ⟨i, d, rfl, by omega, hd, rfl⟩

theorem look_of_boundary {i d : ℕ} {f : β} (hb : F.boundary x = some (i, d)) (hi : i ≤ F.limit)
    (hd : F.decode (x.take i) = some f) : F.look x = .frame f (i + d) := by
  unfold look
  rw [hb]
  simp only
  rw [if_neg (by omega), hd]

theorem look_long (hb : F.boundary x = none) (h : F.limit < x.length) : F.look x = .bad := by
  unfold look
  rw [hb]
  simp only
  rw [if_pos h]

variable (hs : Stable F.boundary)

include hs

theorem look_frame_used {f : β} {used : ℕ} (h : F.look x = .frame f used) : 0 < used ∧ used ≤ x.length := by
  obtain ⟨i, d, hb, -, -, rfl⟩ := look_frame h
  have := hs.inside x i d hb
  omega

theorem look_frame_append {f : β} {used : ℕ} (h : F.look x = .frame f used) : F.look (x ++ y) = .frame f used := by
  obtain ⟨i, d, hb, hi, hd, rfl⟩ := look_frame h
  have hinside := hs.inside x i d hb
  refine look_of_boundary (hs.extend x y _ hb) hi ?_
  rwa [List.take_append_of_le_length (by omega)]

theorem look_bad_append (h : F.look x = .bad) : F.look (x ++ y) = .bad ∨
    ∃ f used, F.look (x ++ y) = .frame f used ∧ F.limit + 1 < used ∧ F.limit < x.length := by
  rcases hb : F.boundary x with _ | ⟨i, d⟩
  · have hlong : F.limit < x.length := by
      unfold look at h
      rw [hb] at h
      simp only at h
      split_ifs at h with hlong
      exact hlong
    rcases hlook : F.look (x ++ y) with _ | _ | ⟨f, used⟩
    · -- More text without a boundary is too long as well.
      unfold look at hlook
      rcases hb' : F.boundary (x ++ y) with _ | ⟨i, d⟩
      · rw [hb'] at hlook
        simp only [List.length_append] at hlook
        rw [if_pos (by omega)] at hlook
        exact absurd hlook (by simp)
      · rw [hb'] at hlook
        simp only at hlook
        split_ifs at hlook
        rcases hd : F.decode ((x ++ y).take i) with _ | g
        · rw [hd] at hlook
          exact absurd hlook (by simp)
        · rw [hd] at hlook
          exact absurd hlook (by simp)
    · exact .inl rfl
    · refine .inr ⟨f, used, rfl, ?_, hlong⟩
      obtain ⟨i, d, hb', -, -, rfl⟩ := look_frame hlook
      -- A boundary that ended inside `x` would have been found there.
      have hend : x.length < i + d := by
        by_contra hend
        have := hs.restrict x y i d hb' (by omega)
        rw [hb] at this
        exact absurd this (by simp)
      omega
  · refine .inl ?_
    have hb' := hs.extend x y _ hb
    have hinside := hs.inside x i d hb
    unfold look at h ⊢
    rw [hb] at h
    rw [hb']
    simp only at h ⊢
    rwa [List.take_append_of_le_length (by omega)]

/-- **Induction over the frames of a text.** -/
theorem frame_induction {P : List α → Prop} (hend : ∀ x, (∀ f used, F.look x ≠ .frame f used) → P x)
    (hframe : ∀ x f used, F.look x = .frame f used → used ≤ x.length → P (x.drop used) → P x) (x : List α) : P x := by
  induction hn : x.length using Nat.strong_induction_on generalizing x with
  | _ n ih =>
    rcases hlook : F.look x with _ | _ | ⟨f, used⟩
    · exact hend x (by simp [hlook])
    · exact hend x (by simp [hlook])
    · have hused := look_frame_used hs hlook
      refine hframe x f used hlook hused.2 (ih (x.drop used).length ?_ (x.drop used) rfl)
      simp only [List.length_drop]
      omega

/-! ## A text that arrives at once -/

theorem drain_bound : ∀ (n m : ℕ) (x : List α), x.length < n → x.length < m → F.drain n x = F.drain m x := by
  intro n
  induction n with
  | zero => intro m x hn; omega
  | succ n ih =>
    intro m x hn hm
    rcases m with _ | m
    · omega
    unfold drain
    rcases hlook : F.look x with _ | _ | ⟨f, used⟩
    · rfl
    · rfl
    · have hused := look_frame_used hs hlook
      have hdrop : (x.drop used).length < n ∧ (x.drop used).length < m := by
        simp only [List.length_drop]
        omega
      simp only
      rw [ih m (x.drop used) hdrop.1 hdrop.2]

theorem whole_frame {f : β} {used : ℕ} (h : F.look x = .frame f used) :
    F.whole x = (f :: (F.whole (x.drop used)).1, (F.whole (x.drop used)).2) := by
  have hused := look_frame_used hs h
  have hbound : F.drain x.length (x.drop used) = F.whole (x.drop used) := by
    refine drain_bound hs _ _ _ ?_ (Nat.lt_succ_self _)
    simp only [List.length_drop]
    omega
  rw [← hbound]
  unfold whole
  rw [drain, h]

omit hs in
theorem whole_short (h : F.look x = .short) : F.whole x = ([], some x) := by
  unfold whole
  rw [drain, h]

omit hs in
theorem whole_bad (h : F.look x = .bad) : F.whole x = ([], none) := by
  unfold whole
  rw [drain, h]

theorem roomy_bound : ∀ (n m : ℕ) (x : List α), x.length < n → x.length < m → F.roomy n x = F.roomy m x := by
  intro n
  induction n with
  | zero => intro m x hn; omega
  | succ n ih =>
    intro m x hn hm
    rcases m with _ | m
    · omega
    unfold roomy
    rcases hlook : F.look x with _ | _ | ⟨f, used⟩
    · rfl
    · rfl
    · have hused := look_frame_used hs hlook
      have hdrop : (x.drop used).length < n ∧ (x.drop used).length < m := by
        simp only [List.length_drop]
        omega
      simp only
      rw [ih m (x.drop used) hdrop.1 hdrop.2]

theorem roomy_frame {f : β} {used : ℕ} (h : F.look x = .frame f used) :
    F.Roomy x ↔ used ≤ F.limit + 1 ∧ F.Roomy (x.drop used) := by
  have hused := look_frame_used hs h
  have hbound : F.roomy x.length (x.drop used) = F.roomy ((x.drop used).length + 1) (x.drop used) := by
    refine roomy_bound hs _ _ _ ?_ (Nat.lt_succ_self _)
    simp only [List.length_drop]
    omega
  unfold Roomy
  rw [← hbound, roomy, h]
  simp

omit hs in
theorem roomy_of_look (h : ∀ f used, F.look x ≠ .frame f used) : F.Roomy x := by
  unfold Roomy
  rw [roomy]
  rcases hlook : F.look x with _ | _ | ⟨f, used⟩
  · rfl
  · rfl
  · exact absurd hlook (h f used)

/-! ## Chunks -/

/-- **More text**: what was left is read again with it; and in a roomy text an error was one for good. -/
theorem whole_append (x y : List α) :
    (∀ rest, (F.whole x).2 = some rest →
      F.whole (x ++ y) = ((F.whole x).1 ++ (F.whole (rest ++ y)).1, (F.whole (rest ++ y)).2)) ∧
    ((F.whole x).2 = none → F.Roomy (x ++ y) → F.whole (x ++ y) = F.whole x) := by
  induction x using frame_induction hs with
  | hend x hno =>
    rcases hlook : F.look x with _ | _ | ⟨f, used⟩
    · rw [whole_short hlook]
      refine ⟨fun rest hrest => ?_, fun hnone => absurd hnone (by simp)⟩
      obtain rfl : x = rest := by simpa using hrest
      simp
    · rw [whole_bad hlook]
      refine ⟨fun rest hrest => absurd hrest (by simp), fun _ hroomy => ?_⟩
      rcases look_bad_append (y := y) hs hlook with hbad | ⟨f, used, hframe, hlong, -⟩
      · rw [whole_bad hbad]
      · have := ((roomy_frame hs hframe).mp hroomy).1
        omega
    · exact absurd hlook (hno f used)
  | hframe x f used hlook hused ih =>
    obtain ⟨hrest, hbad⟩ := ih
    have hframe := look_frame_append (y := y) hs hlook
    have hdrop : (x ++ y).drop used = x.drop used ++ y := List.drop_append_of_le_length hused
    rw [whole_frame hs hlook, whole_frame hs hframe, hdrop]
    refine ⟨fun rest h => ?_, fun h hroomy => ?_⟩
    · rw [hrest rest h]
      rfl
    · rw [roomy_frame hs hframe, hdrop] at hroomy
      rw [hbad h hroomy.2]

omit hs in
theorem read_concat (chunks : List (List α)) (chunk : List α) :
    F.read (chunks ++ [chunk]) = F.feed (F.read chunks) chunk := by
  unfold read
  rw [List.foldl_append]
  rfl

omit hs in
theorem read_singleton (x : List α) : F.read [x] = F.whole x := by
  simp [read, feed]

omit hs in
theorem read_pair_of_bad {x : List α} (h : (F.whole x).2 = none) (y : List α) : F.read [x, y] = F.whole x := by
  simp only [read, List.foldl_cons, List.foldl_nil, feed, List.nil_append, h]
  exact Prod.ext rfl h.symm

theorem roomy_of_append (x y : List α) (hroomy : F.Roomy (x ++ y)) : F.Roomy x := by
  induction x using frame_induction hs with
  | hend x hno => exact roomy_of_look hno
  | hframe x f used hlook hused ih =>
    have hdrop : (x ++ y).drop used = x.drop used ++ y := List.drop_append_of_le_length hused
    rw [roomy_frame hs (look_frame_append (y := y) hs hlook), hdrop] at hroomy
    exact (roomy_frame hs hlook).mpr ⟨hroomy.1, ih hroomy.2⟩

/-- **A roomy text is read the same in any chunks.** -/
theorem read_eq_whole (hshort : F.look [] = .short) (chunks : List (List α)) (hroomy : F.Roomy chunks.flatten) :
    F.read chunks = F.whole chunks.flatten := by
  induction chunks using List.reverseRecOn with
  | nil => exact (whole_short hshort).symm
  | append_singleton chunks chunk ih =>
    rw [List.flatten_append, List.flatten_singleton] at hroomy ⊢
    have hbefore := roomy_of_append hs _ _ hroomy
    obtain ⟨hrest, hbad⟩ := whole_append hs chunks.flatten chunk
    rw [read_concat, ih hbefore]
    unfold feed
    rcases hw : (F.whole chunks.flatten).2 with _ | rest
    · exact (hbad hw hroomy).symm
    · exact (hrest rest hw).symm

/-- A text that is not roomy: cut before the last element of the delimiter it is read to the frame before, and at once it
is read further. -/
theorem exists_cut (x : List α) (hroomy : ¬ F.Roomy x) : ∃ y z, y ++ z = x ∧
    (F.whole y).2 = none ∧ (F.whole y).1.length < (F.whole x).1.length := by
  induction x using frame_induction hs with
  | hend x hno => exact absurd (roomy_of_look hno) hroomy
  | hframe x f used hlook hused ih =>
    by_cases hfits : used ≤ F.limit + 1
    · -- The frame fits, so the trouble is behind it.
      have hbehind : ¬ F.Roomy (x.drop used) := fun h => hroomy ((roomy_frame hs hlook).mpr ⟨hfits, h⟩)
      obtain ⟨y, z, hyz, hnone, hlt⟩ := ih hbehind
      have hlook' : F.look (x.take used ++ y) = .frame f used := by
        obtain ⟨i, d, hb, hi, hd, rfl⟩ := look_frame hlook
        have hinside := hs.inside x i d hb
        have htake : F.boundary (x.take (i + d)) = some (i, d) := by
          refine hs.restrict (x.take (i + d)) (x.drop (i + d)) i d ?_ ?_
          · rwa [List.take_append_drop]
          · simp only [List.length_take]
            omega
        refine look_of_boundary (hs.extend _ y _ htake) hi ?_
        rw [List.take_append_of_le_length (by simp only [List.length_take]; omega), List.take_take]
        rwa [min_eq_left (by omega)]
      have hlen : (x.take used).length = used := by
        simp only [List.length_take]
        omega
      refine ⟨x.take used ++ y, z, ?_, ?_, ?_⟩
      · rw [List.append_assoc, hyz, List.take_append_drop]
      · rw [whole_frame hs hlook', List.drop_left' hlen]
        exact hnone
      · rw [whole_frame hs hlook', whole_frame hs hlook, List.drop_left' hlen]
        simp only [List.length_cons]
        omega
    · -- Without its last element the delimiter is not seen, and the rest is too long.
      obtain ⟨i, d, hb, hi, hd, rfl⟩ := look_frame hlook
      have hbad : F.look (x.take (i + d - 1)) = .bad := by
        have hlen : (x.take (i + d - 1)).length = i + d - 1 := by
          simp only [List.length_take]
          omega
        rcases hb' : F.boundary (x.take (i + d - 1)) with _ | ⟨i', d'⟩
        · exact look_long hb' (by omega)
        · have hext := hs.extend _ (x.drop (i + d - 1)) _ hb'
          rw [List.take_append_drop, hb] at hext
          simp only [Option.some.injEq, Prod.mk.injEq] at hext
          have := hs.inside _ i' d' hb'
          omega
      refine ⟨x.take (i + d - 1), x.drop (i + d - 1), List.take_append_drop _ _, ?_, ?_⟩
      · rw [whole_bad hbad]
      · rw [whole_bad hbad, whole_frame hs hlook]
        simp

/-- **When the chunks do not matter.** -/
theorem independent_iff (hshort : F.look [] = .short) (x : List α) :
    (∀ chunks chunks', chunks.flatten = x → chunks'.flatten = x → F.read chunks = F.read chunks') ↔ F.Roomy x := by
  constructor
  · intro h
    by_contra hroomy
    obtain ⟨y, z, hyz, hnone, hlt⟩ := exists_cut hs x hroomy
    have heq := h [y, z] [x] (by simp [hyz]) (by simp)
    rw [read_singleton, read_pair_of_bad hnone] at heq
    rw [heq] at hlt
    exact absurd hlt (lt_irrefl _)
  · intro hroomy chunks chunks' hx hx'
    rw [read_eq_whole hs hshort chunks (hx ▸ hroomy), read_eq_whole hs hshort chunks' (hx' ▸ hroomy), hx, hx']

theorem roomy_of_one (hone : ∀ x i d, F.boundary x = some (i, d) → d = 1) (x : List α) : F.Roomy x := by
  induction x using frame_induction hs with
  | hend x hno => exact roomy_of_look hno
  | hframe x f used hlook hused ih =>
    refine (roomy_frame hs hlook).mpr ⟨?_, ih⟩
    obtain ⟨i, d, hb, hi, -, rfl⟩ := look_frame hlook
    have := hone x i d hb
    omega

end Framer

end AnimaCore.Lib
