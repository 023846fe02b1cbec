import AnimaCore.Lib.Table

/-!
# AnimaCore.Lib.Shard — tables split by the first component of their keys

The entries of a table under one first component are a shard of it.

* `SameShard a t t'`: the two tables have the same entries in the shard of `a`.
* A write at a key of the shard keeps two tables the same there; a write at any other key leaves the shard as it was.
-/

namespace AnimaCore.Lib

variable {α κ ν : Type} [Ord (α × κ)] [Std.TransOrd (α × κ)] [Std.LawfulEqOrd (α × κ)]

/-- The two tables have the same entries under the first component `a`. -/
def SameShard (a : α) (t t' : Table (α × κ) ν) : Prop := ∀ k : κ, t[(a, k)]? = t'[(a, k)]?

namespace SameShard

variable {a b : α} {t t' u : Table (α × κ) ν} {k : κ} {v : ν}

omit [Std.LawfulEqOrd (α × κ)] in
theorem refl (t : Table (α × κ) ν) : SameShard a t t := fun _ => rfl

omit [Std.LawfulEqOrd (α × κ)] in
omit [Std.LawfulEqOrd (α × κ)] in
theorem trans (h : SameShard a t t') (h' : SameShard a t' u) : SameShard a t u := fun k => (h k).trans (h' k)

omit [Std.LawfulEqOrd (α × κ)] in
theorem mem_iff (h : SameShard a t t') (k : κ) : (a, k) ∈ t ↔ (a, k) ∈ t' := by
  rw [Table.mem_iff_getElem?_isSome, Table.mem_iff_getElem?_isSome, h k]

section DecidableEq

variable [DecidableEq (α × κ)]

theorem insert (h : SameShard a t t') (k : κ) (v : ν) : SameShard a (t.insert (a, k) v) (t'.insert (a, k) v) := by
  intro k'
  rw [Table.getElem?_insert_eq, Table.getElem?_insert_eq, h k']

theorem erase (h : SameShard a t t') (k : κ) : SameShard a (t.erase (a, k)) (t'.erase (a, k)) := by
  intro k'
  rw [Table.getElem?_erase_eq, Table.getElem?_erase_eq, h k']

theorem modify (h : SameShard a t t') (k : κ) (f : ν → ν) :
    SameShard a (t.modify (a, k) f) (t'.modify (a, k) f) := by
  intro k'
  rw [Table.getElem?_modify_eq, Table.getElem?_modify_eq, h k', h k]

omit [Ord (α × κ)] [Std.TransOrd (α × κ)] [Std.LawfulEqOrd (α × κ)] [DecidableEq (α × κ)] in
theorem key_ne (hne : b ≠ a) (k k' : κ) : ¬(a, k) = (b, k') := fun h => hne (congrArg Prod.fst h).symm

theorem insert_other (hne : b ≠ a) : SameShard b t (t.insert (a, k) v) := by
  intro k'
  rw [Table.getElem?_insert_eq, if_neg (key_ne hne k k')]

theorem erase_other (hne : b ≠ a) : SameShard b t (t.erase (a, k)) := by
  intro k'
  rw [Table.getElem?_erase_eq, if_neg (key_ne hne k k')]

theorem modify_other {f : ν → ν} (hne : b ≠ a) : SameShard b t (t.modify (a, k) f) := by
  intro k'
  rw [Table.getElem?_modify_eq, if_neg (key_ne hne k k')]

end DecidableEq

end SameShard

/-- The two sets have the same members under the first component `a`. -/
def SameMembers (a : α) (t t' : KeySet (α × κ)) : Prop := ∀ k : κ, (a, k) ∈ t ↔ (a, k) ∈ t'

namespace SameMembers

variable {a b : α} {t t' : KeySet (α × κ)} {k : κ}

theorem insert (h : SameMembers a t t') (k : κ) : SameMembers a (t.insert (a, k)) (t'.insert (a, k)) := by
  intro k'
  rw [KeySet.mem_insert_iff, KeySet.mem_insert_iff, h k']

theorem insert_other (hne : b ≠ a) : SameMembers b t (t.insert (a, k)) := by
  intro k'
  rw [KeySet.mem_insert_iff, or_iff_right (SameShard.key_ne hne k k')]

end SameMembers

end AnimaCore.Lib
