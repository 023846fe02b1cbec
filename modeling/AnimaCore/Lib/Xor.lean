import AnimaCore.Lib.Table

/-!
# AnimaCore.Lib.Xor — fingerprints of collections by exclusive or

`xorDigests digest l` is the exclusive or of the digests of the members of `l`, `none` if one of them has none.  It
does not depend on the order, and a member that is listed twice cancels.

* `xorDigests_perm`, `xorDigests_cons_eq_some`, `xorDigests_append_eq_some`: how it is computed.
* `xorDigests_insert_new`, `xorDigests_insert_old`: the fingerprint of the entries of a table after a write.
* `NoCollision digest S`: among members of `S`, it is zero only if every member is listed an even number of times.
* `perm_of_xorDigests_eq`: without collisions, two lists without repetition and with equal fingerprints have the same
  members.
-/

namespace AnimaCore.Lib

variable {α : Type} {w : ℕ} {digest : α → Option (BitVec w)} {l l' : List α} {x y : BitVec w} {a : α}

def xorDigests (digest : α → Option (BitVec w)) : List α → Option (BitVec w)
  | [] => some 0
  | a :: l => do
    let d ← digest a
    let rest ← xorDigests digest l
    return d ^^^ rest

@[simp] theorem xorDigests_nil : xorDigests digest [] = some 0 := rfl

theorem xorDigests_cons_eq_some :
    xorDigests digest (a :: l) = some x ↔ ∃ d r, digest a = some d ∧ xorDigests digest l = some r ∧ x = d ^^^ r := by
  simp only [xorDigests, Option.bind_eq_bind, Option.bind_eq_some_iff]
  constructor
  · rintro ⟨d, hd, r, hr, h⟩
    cases h
    exact ⟨d, r, hd, hr, rfl⟩
  · rintro ⟨d, r, hd, hr, rfl⟩
    exact ⟨d, hd, r, hr, rfl⟩

theorem xorDigests_append_eq_some :
    xorDigests digest (l ++ l') = some x ↔
      ∃ y z, xorDigests digest l = some y ∧ xorDigests digest l' = some z ∧ x = y ^^^ z := by
  induction l generalizing x with
  | nil => simp
  | cons a l ih =>
    simp only [List.cons_append, xorDigests_cons_eq_some, ih]
    constructor
    · rintro ⟨d, _, hd, ⟨y, z, hy, hz, rfl⟩, rfl⟩
      exact ⟨d ^^^ y, z, ⟨d, y, hd, hy, rfl⟩, hz, by rw [BitVec.xor_assoc]⟩
    · rintro ⟨_, z, ⟨d, y, hd, hy, rfl⟩, hz, rfl⟩
      exact ⟨d, y ^^^ z, hd, ⟨y, z, hy, hz, rfl⟩, by rw [BitVec.xor_assoc]⟩

theorem xorDigests_perm (h : l.Perm l') : xorDigests digest l = xorDigests digest l' := by
  induction h with
  | nil => rfl
  | cons a _ ih => simp only [xorDigests, ih]
  | swap a b l =>
    ext1 x
    simp only [xorDigests_cons_eq_some]
    constructor
    · rintro ⟨d, _, hd, ⟨e, r, he, hr, rfl⟩, rfl⟩
      exact ⟨e, d ^^^ r, he, ⟨d, r, hd, hr, rfl⟩, by rw [← BitVec.xor_assoc, ← BitVec.xor_assoc, BitVec.xor_comm d]⟩
    · rintro ⟨d, _, hd, ⟨e, r, he, hr, rfl⟩, rfl⟩
      exact ⟨e, d ^^^ r, he, ⟨d, r, hd, hr, rfl⟩, by rw [← BitVec.xor_assoc, ← BitVec.xor_assoc, BitVec.xor_comm d]⟩
  | trans _ _ ih₁ ih₂ => exact ih₁.trans ih₂

theorem digest_of_xorDigests (h : xorDigests digest l = some x) (ha : a ∈ l) : ∃ d, digest a = some d := by
  obtain ⟨pre, post, rfl⟩ := List.append_of_mem ha
  obtain ⟨_, _, _, hpost, _⟩ := xorDigests_append_eq_some.mp h
  obtain ⟨d, _, hd, _⟩ := xorDigests_cons_eq_some.mp hpost
  exact ⟨d, hd⟩

section Tables

variable {κ ν : Type} [Ord κ] [Std.TransOrd κ] [Std.LawfulEqOrd κ] [DecidableEq κ] {t : Table κ ν} {k : κ} {v v' : ν}
  {f : κ × ν → α} {d d' : BitVec w}

theorem xorDigests_insert_new (hk : k ∉ t) (hx : xorDigests digest (t.toList.map f) = some x)
    (hd : digest (f (k, v)) = some d) : xorDigests digest ((t.insert k v).toList.map f) = some (x ^^^ d) := by
  rw [xorDigests_perm ((Table.toList_insert_perm hk).map f), List.map_cons, xorDigests_cons_eq_some]
  exact ⟨d, x, hd, hx, BitVec.xor_comm x d⟩

theorem xorDigests_insert_old (hk : t[k]? = some v) (hx : xorDigests digest (t.toList.map f) = some x)
    (hd : digest (f (k, v)) = some d) (hd' : digest (f (k, v')) = some d') :
    xorDigests digest ((t.insert k v').toList.map f) = some (x ^^^ d ^^^ d') := by
  rw [xorDigests_perm ((Table.toList_perm_erase hk).map f), List.map_cons, xorDigests_cons_eq_some] at hx
  obtain ⟨e, r, he, hr, rfl⟩ := hx
  rw [hd] at he
  cases he
  have hk' : (t.insert k v')[k]? = some v' := by simp
  rw [xorDigests_perm ((Table.toList_perm_erase hk').map f), Table.erase_insert_self, List.map_cons,
    xorDigests_cons_eq_some]
  refine ⟨d', r, hd', hr, ?_⟩
  rw [BitVec.xor_comm d r, BitVec.xor_assoc r, BitVec.xor_self, BitVec.xor_zero, BitVec.xor_comm]

end Tables

/-- The members of `S` collide only by being listed an even number of times. -/
def NoCollision [DecidableEq α] (digest : α → Option (BitVec w)) (S : α → Prop) : Prop :=
  ∀ l : List α, (∀ a ∈ l, S a) → xorDigests digest l = some 0 → ∀ a, Even (l.count a)

theorem noCollision_pair [DecidableEq α] {b : α} {d e : BitVec w} (ha : digest a = some d) (hb : digest b = some e)
    (hd : d ≠ 0) (he : e ≠ 0) (hne : d ≠ e) : NoCollision digest fun c => c = a ∨ c = b := by
  -- a digest stays in the exclusive or if its value is listed an odd number of times
  have hxor : ∀ l : List α, (∀ c ∈ l, c = a ∨ c = b) →
      xorDigests digest l = some ((if Even (l.count a) then 0 else d) ^^^ if Even (l.count b) then 0 else e) := by
    have hab : a ≠ b := by
      rintro rfl
      exact hne (Option.some.inj (ha.symm.trans hb))
    intro l
    induction l with
    | nil => simp
    | cons c l ih =>
      intro hl
      rw [xorDigests_cons_eq_some]
      have hrest := ih fun c' hc' => hl c' (List.mem_cons_of_mem _ hc')
      obtain rfl | rfl := hl c List.mem_cons_self
      · refine ⟨d, _, ha, hrest, ?_⟩
        rw [List.count_cons_self, List.count_cons_of_ne hab]
        by_cases hc : Even (l.count c) <;> simp [hc, Nat.even_add_one]
      · refine ⟨e, _, hb, hrest, ?_⟩
        rw [List.count_cons_self, List.count_cons_of_ne hab.symm]
        by_cases hc : Even (l.count c) <;> simp [hc, Nat.even_add_one, BitVec.xor_comm e]
  intro l hl hzero c
  rw [hxor l hl, Option.some.injEq] at hzero
  have hboth : Even (l.count a) ∧ Even (l.count b) := by
    by_cases hca : Even (l.count a) <;> by_cases hcb : Even (l.count b)
    · exact ⟨hca, hcb⟩
    · simp [hca, hcb] at hzero
      exact absurd hzero he
    · simp [hca, hcb] at hzero
      exact absurd hzero hd
    · simp only [hca, hcb, if_false] at hzero
      exact absurd (BitVec.xor_eq_zero_iff.mp hzero) hne
  by_cases hc : c ∈ l
  · obtain rfl | rfl := hl c hc
    · exact hboth.1
    · exact hboth.2
  · simp [List.count_eq_zero_of_not_mem hc]

theorem perm_of_xorDigests_eq [DecidableEq α] {S : α → Prop} (hS : NoCollision digest S) (hl : ∀ a ∈ l, S a)
    (hl' : ∀ a ∈ l', S a) (hn : l.Nodup) (hn' : l'.Nodup) (hx : xorDigests digest l = some x)
    (hx' : xorDigests digest l' = some x) : l.Perm l' := by
  have hzero : xorDigests digest (l ++ l') = some 0 :=
    xorDigests_append_eq_some.mpr ⟨x, x, hx, hx', by rw [BitVec.xor_self]; rfl⟩
  have heven := hS (l ++ l') (fun a ha => (List.mem_append.mp ha).elim (hl a) (hl' a)) hzero
  rw [List.perm_iff_count]
  intro a
  -- both counts are at most one, and their sum is even
  have hsum := heven a
  rw [List.count_append] at hsum
  have h1 := List.nodup_iff_count_le_one.mp hn a
  have h2 := List.nodup_iff_count_le_one.mp hn' a
  obtain ⟨r, hr⟩ := hsum
  omega

end AnimaCore.Lib
