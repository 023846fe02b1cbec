import Mathlib

/-!
# AnimaCore.Lib.Absorb — messages that may come in any order and more than once

A receiver is a function `f : β → α → β`.  If on the states that satisfy `I` and the messages that satisfy `S` two
messages commute and a repeated message changes nothing, then the state after a list of messages depends only on which
messages are in it: `foldl_eq_of_mem_iff`.
-/

namespace AnimaCore.Lib

/-- Messages of `S` commute and are absorbed, on the states of `I`. -/
structure Absorbing {α β : Type} (f : β → α → β) (I : β → Prop) (S : α → Prop) : Prop where
  keeps : ∀ b x, I b → S x → I (f b x)
  comm : ∀ b x y, I b → S x → S y → f (f b x) y = f (f b y) x
  idem : ∀ b x, I b → S x → f (f b x) x = f b x

namespace Absorbing

variable {α β : Type} {f : β → α → β} {I : β → Prop} {S : α → Prop} {l l' : List α} {b : β} {x : α}

theorem foldl_keeps (h : Absorbing f I S) (hb : I b) (hl : ∀ x ∈ l, S x) : I (l.foldl f b) := by
  induction l generalizing b with
  | nil => exact hb
  | cons x l ih => exact ih (h.keeps b x hb (hl x (by simp))) fun y hy => hl y (by simp [hy])

theorem foldl_front (h : Absorbing f I S) (hb : I b) (hl : ∀ x ∈ l, S x) (hx : S x) :
    f (l.foldl f b) x = l.foldl f (f b x) := by
  induction l generalizing b with
  | nil => rfl
  | cons y l ih =>
    have hy : S y := hl y (by simp)
    rw [List.foldl_cons, List.foldl_cons, ih (h.keeps b y hb hy) fun z hz => hl z (by simp [hz]), h.comm b y x hb hy hx]

theorem foldl_absorb (h : Absorbing f I S) (hb : I b) (hl : ∀ x ∈ l, S x) (hx : x ∈ l) : f (l.foldl f b) x = l.foldl f b := by
  induction l generalizing b with
  | nil => cases hx
  | cons y l ih =>
    have hy : S y := hl y (by simp)
    have hrest : ∀ z ∈ l, S z := fun z hz => hl z (by simp [hz])
    have hby : I (f b y) := h.keeps b y hb hy
    rcases List.mem_cons.mp hx with rfl | hx
    · rw [List.foldl_cons, h.foldl_front hby hrest hy, h.idem b x hb hy]
    · exact ih hby hrest hx

theorem foldl_absorb_all (h : Absorbing f I S) (hb : I b) (hl : ∀ x ∈ l, S x) (hsub : ∀ x ∈ l', x ∈ l) :
    l'.foldl f (l.foldl f b) = l.foldl f b := by
  induction l' with
  | nil => rfl
  | cons x l' ih =>
    rw [List.foldl_cons, h.foldl_absorb hb hl (hsub x (by simp))]
    exact ih fun y hy => hsub y (by simp [hy])

theorem foldl_swap (h : Absorbing f I S) (hb : I b) (hl : ∀ x ∈ l, S x) (hl' : ∀ x ∈ l', S x) :
    l'.foldl f (l.foldl f b) = l.foldl f (l'.foldl f b) := by
  induction l' generalizing b with
  | nil => rfl
  | cons x l' ih =>
    have hx : S x := hl' x (by simp)
    rw [List.foldl_cons, List.foldl_cons, h.foldl_front hb hl hx]
    exact ih (h.keeps b x hb hx) fun y hy => hl' y (by simp [hy])

/-- **Any order, any repetition**: the state depends only on the set of messages. -/
theorem foldl_eq_of_mem_iff (h : Absorbing f I S) (hb : I b) (hl : ∀ x ∈ l, S x) (hmem : ∀ x, x ∈ l ↔ x ∈ l') :
    l.foldl f b = l'.foldl f b := by
  have hl' : ∀ x ∈ l', S x := fun x hx => hl x ((hmem x).mpr hx)
  calc l.foldl f b = l'.foldl f (l.foldl f b) := (h.foldl_absorb_all hb hl fun x hx => (hmem x).mpr hx).symm
    _ = l.foldl f (l'.foldl f b) := h.foldl_swap hb hl hl'
    _ = l'.foldl f b := h.foldl_absorb_all hb hl' fun x hx => (hmem x).mp hx

end Absorbing

end AnimaCore.Lib
