import AnimaCore.Lib.Ranking

/-!
# AnimaCore.Lib.TopK — the first few of distinct keys, in one pass

A buffer of at most `limit` elements, in the order of `cmp`, with one element for each key.  `offer` takes one more element:

    if let Some(i) = buffer.position(same key) { if element >= buffer[i] { skip }; buffer.remove(i) }
    if buffer.len() == limit && element >= buffer.last() { skip }
    buffer.push(element); buffer.sort_by(cmp); if buffer.len() > limit { buffer.pop() }

* `Keeps`: what the buffer has of the elements seen so far; `Keeps.offer` is one step.
* `offered_eq`: over distinct elements, the buffer has the first `limit` of the best elements of the keys.
-/

namespace AnimaCore.Lib

variable {α κ : Type} [DecidableEq κ] (cmp : α → α → Ordering) (key : α → κ) (limit : ℕ)

/-- Push, sort and pop, if the element has a place. -/
def pushBounded (buffer : List α) (a : α) : List α :=
  if buffer.length = limit ∧ buffer.getLast?.any (fun last => (cmp a last).isGE) then buffer
  else
    let pushed := (buffer ++ [a]).mergeSort fun a b => (cmp a b).isLE
    if limit < pushed.length then pushed.dropLast else pushed

def offer (buffer : List α) (a : α) : List α :=
  match buffer.find? fun b => key b = key a with
  | some b => if (cmp a b).isGE then buffer else pushBounded cmp limit (buffer.eraseP fun b => key b = key a) a
  | none => pushBounded cmp limit buffer a

/-- The elements that are the best of their key. -/
def bests (l : List α) : List α := l.filter fun a => l.all fun b => decide (key b = key a → (cmp b a).isLT = false)

variable {cmp key limit} {buffer seen l : List α} {a b : α}

/-- What a buffer keeps of the elements seen: it is in order, with one element for each key, and an element that it does not have
is not better than the one of its key, or comes after all of a full buffer. -/
structure Keeps (cmp : α → α → Ordering) (key : α → κ) (limit : ℕ) (seen buffer : List α) : Prop where
  sorted : buffer.Pairwise fun a b => (cmp a b).isLT = true
  distinct : buffer.Pairwise fun a b => key a ≠ key b
  length_le : buffer.length ≤ limit
  subset : ∀ a ∈ buffer, a ∈ seen
  covers : ∀ a ∈ seen, (∃ b ∈ buffer, key b = key a ∧ (cmp b a).isLE = true) ∨
    (buffer.length = limit ∧ ∀ b ∈ buffer, (cmp b a).isLT = true)

omit [DecidableEq κ] in
theorem keeps_nil : Keeps cmp key limit [] [] where
  sorted := .nil
  distinct := .nil
  length_le := Nat.zero_le _
  subset := by simp
  covers := by simp

section

omit [DecidableEq κ]

theorem isLT_of_not_isGE (h : (cmp a b).isGE = false) : (cmp a b).isLT = true := by
  cases hcmp : cmp a b with
  | lt => rfl
  | eq =>
    rw [hcmp] at h
    cases h
  | gt =>
    rw [hcmp] at h
    cases h

variable [Std.TransCmp cmp]

theorem isLE_of_isGE (h : (cmp a b).isGE = true) : (cmp b a).isLE = true := by
  have hswap : cmp b a = (cmp a b).swap := Std.OrientedCmp.eq_swap
  rw [hswap]
  cases hcmp : cmp a b with
  | lt =>
    rw [hcmp] at h
    cases h
  | eq => rfl
  | gt => rfl

theorem isLT_trans {c : α} (hab : (cmp a b).isLT = true) (hbc : (cmp b c).isLT = true) : (cmp a c).isLT = true := by
  rw [Ordering.isLT_iff_eq_lt] at *
  exact Std.TransCmp.lt_trans hab hbc

theorem sorted_mergeSort (hnd : l.Nodup) (heq : ∀ a ∈ l, ∀ b ∈ l, cmp a b = .eq → a = b) :
    (l.mergeSort fun a b => (cmp a b).isLE).Pairwise fun a b => (cmp a b).isLT = true := by
  have hperm := List.mergeSort_perm l fun a b => (cmp a b).isLE
  refine pairwise_strict (hperm.nodup_iff.mpr hnd) (fun a ha b hb => heq a (hperm.mem_iff.mp ha) b (hperm.mem_iff.mp hb)) ?_
  refine List.pairwise_mergeSort (fun a b c => Std.TransCmp.isLE_trans) (fun a b => ?_) l
  have hswap : cmp b a = (cmp a b).swap := Std.OrientedCmp.eq_swap
  rw [hswap]
  cases cmp a b <;> rfl

theorem eq_of_sorted {l' : List α} (hl : l.Pairwise fun a b => (cmp a b).isLT = true)
    (hl' : l'.Pairwise fun a b => (cmp a b).isLT = true) (hmem : ∀ a, a ∈ l ↔ a ∈ l') : l = l' := by
  have hirrefl : ∀ {a b : α}, (cmp a b).isLT = true → a ≠ b := by
    rintro a b hlt rfl
    have hnot := isLT_asymm a a hlt
    rw [hlt] at hnot
    cases hnot
  have hnd : l.Nodup := hl.imp hirrefl
  have hnd' : l'.Nodup := hl'.imp hirrefl
  refine List.Perm.eq_of_pairwise (fun a b _ _ hab hba => ?_) hl hl' ((List.perm_ext_iff_of_nodup hnd hnd').mpr hmem)
  rw [isLT_asymm a b hab] at hba
  cases hba

theorem isLT_of_isLT_of_isLE {c : α} (hab : (cmp a b).isLT = true) (hbc : (cmp b c).isLE = true) : (cmp a c).isLT = true := by
  rw [Ordering.isLT_iff_eq_lt] at *
  exact Std.TransCmp.lt_of_lt_of_isLE hab hbc

omit [Std.TransCmp cmp] in
theorem isLE_of_isLT (h : (cmp a b).isLT = true) : (cmp a b).isLE = true := by
  rw [Ordering.isLT_iff_eq_lt] at h
  rw [h]
  rfl

theorem isLE_refl : (cmp a a).isLE = true := by
  have hself : cmp a a = .eq := Std.ReflCmp.compare_self
  rw [hself]
  rfl

theorem Keeps.pushed {base : List α} (hdistinct : base.Pairwise fun a b => key a ≠ key b) (hkey : ∀ b ∈ base, key b ≠ key a)
    (heq : ∀ x ∈ base ++ [a], ∀ y ∈ base ++ [a], cmp x y = .eq → x = y) :
    ((base ++ [a]).mergeSort fun a b => (cmp a b).isLE).Pairwise (fun a b => (cmp a b).isLT = true) ∧
      ((base ++ [a]).mergeSort fun a b => (cmp a b).isLE).Pairwise (fun a b => key a ≠ key b) ∧
      (∀ x, x ∈ (base ++ [a]).mergeSort (fun a b => (cmp a b).isLE) ↔ x ∈ base ∨ x = a) ∧
      ((base ++ [a]).mergeSort fun a b => (cmp a b).isLE).length = base.length + 1 := by
  have hperm := List.mergeSort_perm (base ++ [a]) fun a b => (cmp a b).isLE
  have hkeys : (base ++ [a]).Pairwise fun a b => key a ≠ key b := by
    rw [List.pairwise_append]
    refine ⟨hdistinct, List.pairwise_singleton _ _, fun b hb x hx => ?_⟩
    rw [List.mem_singleton.mp hx]
    exact hkey b hb
  have hnd : (base ++ [a]).Nodup := hkeys.imp fun hne heq => hne (congrArg key heq)
  refine ⟨sorted_mergeSort hnd heq, ?_, fun x => ?_, ?_⟩
  · exact (hperm.pairwise_iff fun {a b} h => h.symm).mpr hkeys
  · rw [hperm.mem_iff, List.mem_append, List.mem_singleton]
  · rw [hperm.length_eq, List.length_append, List.length_singleton]

end

variable [Std.TransCmp cmp]

/-- **One round.** -/
theorem Keeps.offer (h : Keeps cmp key limit seen buffer) (hnew : a ∉ seen)
    (heq : ∀ x ∈ seen ++ [a], ∀ y ∈ seen ++ [a], cmp x y = .eq → x = y) :
    Keeps cmp key limit (seen ++ [a]) (offer cmp key limit buffer a) := by
  have hseen : ∀ x ∈ seen, x ∈ seen ++ [a] := fun x hx => List.mem_append_left _ hx
  have ha : a ∈ seen ++ [a] := List.mem_append_right _ (List.mem_singleton_self a)
  have hmem : ∀ x ∈ seen ++ [a], x ∈ seen ∨ x = a := fun x hx => by
    rwa [List.mem_append, List.mem_singleton] at hx
  have heq' : ∀ {base : List α}, (∀ x ∈ base, x ∈ seen) →
      ∀ x ∈ base ++ [a], ∀ y ∈ base ++ [a], cmp x y = .eq → x = y := by
    intro base hbase
    have hin : ∀ x ∈ base ++ [a], x ∈ seen ++ [a] := by
      intro x hx
      rcases List.mem_append.mp hx with hx | hx
      · exact hseen x (hbase x hx)
      · rw [List.mem_singleton.mp hx]
        exact ha
    exact fun x hx y hy => heq x (hin x hx) y (hin y hy)
  unfold AnimaCore.Lib.offer
  cases hfind : buffer.find? fun b => decide (key b = key a) with
  | some b =>
    have hb : b ∈ buffer := List.mem_of_find?_eq_some hfind
    have hfound := List.find?_some hfind
    have hkey : key b = key a := of_decide_eq_true hfound
    dsimp only
    by_cases hge : (cmp a b).isGE = true
    · -- the element of its key is as good
      rw [if_pos hge]
      refine ⟨h.sorted, h.distinct, h.length_le, fun x hx => hseen x (h.subset x hx), fun x hx => ?_⟩
      rcases hmem x hx with hx | rfl
      · exact h.covers x hx
      · exact .inl ⟨b, hb, hkey, isLE_of_isGE hge⟩
    · -- it takes the place of the element of its key
      rw [if_neg hge]
      have hlt : (cmp a b).isLT = true := isLT_of_not_isGE (by simpa using hge)
      obtain ⟨b', front, back, hfront, hb', hsplit, herase⟩ :=
        List.exists_of_eraseP hb (p := fun b => decide (key b = key a)) (decide_eq_true hkey)
      rw [herase]
      have hsame : b' = b := by
        rw [hsplit] at hb
        have hkeys := hsplit ▸ h.distinct
        rw [List.pairwise_append] at hkeys
        rcases List.mem_append.mp hb with hb | hb
        · exact absurd (decide_eq_true hkey) (hfront b hb)
        · rcases List.mem_cons.mp hb with rfl | hb
          · rfl
          · exact absurd ((of_decide_eq_true hb').trans hkey.symm) ((List.pairwise_cons.mp hkeys.2.1).1 b hb)
      subst hsame
      have hsub : (front ++ back).Sublist buffer := by
        rw [hsplit]
        exact List.Sublist.append_left (List.sublist_cons_self _ _) _
      have hlen : buffer.length = (front ++ back).length + 1 := by
        rw [hsplit, List.length_append, List.length_cons, List.length_append]
        omega
      have hother : ∀ x ∈ front ++ back, key x ≠ key a := by
        intro x hx
        have hkeys := hsplit ▸ h.distinct
        rw [List.pairwise_append, List.pairwise_cons] at hkeys
        rcases List.mem_append.mp hx with hx | hx
        · exact hkey ▸ hkeys.2.2 x hx b' List.mem_cons_self
        · exact fun heq => hkeys.2.1.1 x hx (hkey.trans heq.symm)
      have hbase : ∀ x ∈ front ++ back, x ∈ seen := fun x hx => h.subset x (hsub.subset hx)
      obtain ⟨hsorted, hdistinct, hpushed, hlength⟩ :=
        Keeps.pushed (h.distinct.sublist hsub) hother (heq' hbase)
      have hle := h.length_le
      unfold pushBounded
      dsimp only
      rw [if_neg fun hfull => by omega, if_neg (by omega)]
      refine ⟨hsorted, hdistinct, by omega, fun x hx => ?_, fun x hx => ?_⟩
      · rcases (hpushed x).mp hx with hx | rfl
        · exact hseen x (hbase x hx)
        · exact ha
      · rcases hmem x hx with hx | rfl
        · rcases h.covers x hx with ⟨y, hy, hxy, hyx⟩ | ⟨hfull, hall⟩
          · rw [hsplit] at hy
            by_cases hyb : y = b'
            · rw [hyb] at hxy hyx
              refine .inl ⟨a, (hpushed a).mpr (.inr rfl), hkey.symm.trans hxy, ?_⟩
              exact isLE_of_isLT (isLT_of_isLT_of_isLE hlt hyx)
            · refine .inl ⟨y, (hpushed y).mpr (.inl ?_), hxy, hyx⟩
              rcases List.mem_append.mp hy with hy | hy
              · exact List.mem_append_left _ hy
              · exact List.mem_append_right _ ((List.mem_cons.mp hy).resolve_left hyb)
          · refine .inr ⟨by omega, fun y hy => ?_⟩
            rcases (hpushed y).mp hy with hy | rfl
            · exact hall y (hsub.subset hy)
            · exact isLT_trans hlt (hall b' hb)
        · exact .inl ⟨x, (hpushed x).mpr (.inr rfl), rfl, isLE_refl⟩
  | none =>
    have hother : ∀ x ∈ buffer, key x ≠ key a := fun x hx heq =>
      absurd (decide_eq_true heq) (by simpa using List.find?_eq_none.mp hfind x hx)
    dsimp only
    unfold pushBounded
    by_cases hfull : buffer.length = limit ∧ buffer.getLast?.any (fun last => (cmp a last).isGE) = true
    · -- a full buffer, and none of it comes after the element
      rw [if_pos hfull]
      obtain ⟨hlen, hlast⟩ := hfull
      refine ⟨h.sorted, h.distinct, h.length_le, fun x hx => hseen x (h.subset x hx), fun x hx => ?_⟩
      rcases hmem x hx with hx | rfl
      · exact h.covers x hx
      · refine .inr ⟨hlen, fun b hb => ?_⟩
        obtain ⟨last, hsome, hge⟩ : ∃ last, buffer.getLast? = some last ∧ (cmp x last).isGE = true := by
          cases hsome : buffer.getLast? with
          | none =>
            rw [hsome] at hlast
            cases hlast
          | some last =>
            rw [hsome] at hlast
            exact ⟨last, rfl, hlast⟩
        obtain ⟨front, hfront⟩ := List.getLast?_eq_some_iff.mp hsome
        have hlastMem : last ∈ buffer := List.mem_of_getLast? hsome
        have hbefore : (cmp last x).isLT = true := by
          have hle := isLE_of_isGE hge
          cases hcmp : cmp last x with
          | lt => rfl
          | eq =>
            have hsame := heq last (hseen last (h.subset last hlastMem)) x ha hcmp
            exact absurd (hsame ▸ h.subset last hlastMem) hnew
          | gt =>
            rw [hcmp] at hle
            cases hle
        have hsorted := h.sorted
        rw [hfront] at hb hsorted
        rcases List.mem_append.mp hb with hb | hb
        · exact isLT_trans ((List.pairwise_append.mp hsorted).2.2 b hb last (List.mem_singleton_self last)) hbefore
        · rw [List.mem_singleton.mp hb]
          exact hbefore
    · rw [if_neg hfull]
      obtain ⟨hsorted, hdistinct, hpushed, hlength⟩ := Keeps.pushed h.distinct hother (heq' h.subset)
      have hin : ∀ x ∈ (buffer ++ [a]).mergeSort (fun a b => (cmp a b).isLE), x ∈ seen ++ [a] := by
        intro x hx
        rcases (hpushed x).mp hx with hx | rfl
        · exact hseen x (h.subset x hx)
        · exact ha
      have hle := h.length_le
      dsimp only
      by_cases hover : limit < ((buffer ++ [a]).mergeSort fun a b => (cmp a b).isLE).length
      · -- the last of the sorted elements goes
        rw [if_pos hover]
        rw [hlength] at hover
        generalize (buffer ++ [a]).mergeSort (fun a b => (cmp a b).isLE) = pushed at *
        have hne : pushed ≠ [] := by
          rintro rfl
          simp at hlength
        have hsplit := List.dropLast_append_getLast hne
        have hbefore : ∀ x ∈ pushed.dropLast, (cmp x (pushed.getLast hne)).isLT = true := by
          rw [← hsplit] at hsorted
          exact fun x hx => (List.pairwise_append.mp hsorted).2.2 x hx _ (List.mem_singleton_self _)
        have hlen : pushed.dropLast.length = limit := by
          rw [List.length_dropLast]
          omega
        have hkept : ∀ {x y : α}, y ∈ pushed → key y = key x → (cmp y x).isLE = true →
            (∃ b ∈ pushed.dropLast, key b = key x ∧ (cmp b x).isLE = true) ∨
              (pushed.dropLast.length = limit ∧ ∀ b ∈ pushed.dropLast, (cmp b x).isLT = true) := by
          intro x y hy hxy hyx
          rw [← hsplit] at hy
          rcases List.mem_append.mp hy with hy | hy
          · exact .inl ⟨y, hy, hxy, hyx⟩
          · rw [List.mem_singleton.mp hy] at hyx
            exact .inr ⟨hlen, fun b hb => isLT_of_isLT_of_isLE (hbefore b hb) hyx⟩
        refine ⟨hsorted.sublist (List.dropLast_sublist _), hdistinct.sublist (List.dropLast_sublist _), by omega,
          fun x hx => hin x (List.dropLast_subset _ hx), fun x hx => ?_⟩
        rcases hmem x hx with hx | rfl
        · rcases h.covers x hx with ⟨y, hy, hxy, hyx⟩ | ⟨hlimit, hall⟩
          · exact hkept ((hpushed y).mpr (.inl hy)) hxy hyx
          · refine .inr ⟨hlen, fun b hb => ?_⟩
            rcases (hpushed b).mp (List.dropLast_subset _ hb) with hb' | rfl
            · exact hall b hb'
            · -- the element itself comes before the last of the full buffer
              have hpos : 0 < buffer.length := by
                have hlt : 0 < pushed.dropLast.length := List.length_pos_of_mem hb
                omega
              obtain ⟨last, hlast⟩ : ∃ last, buffer.getLast? = some last :=
                ⟨_, List.getLast?_eq_some_getLast (List.ne_nil_of_length_pos hpos)⟩
              have hlt : (cmp b last).isLT = true := by
                refine isLT_of_not_isGE ?_
                by_contra hge
                rw [Bool.not_eq_false] at hge
                exact hfull ⟨hlimit, by rw [hlast]; exact hge⟩
              exact isLT_trans hlt (hall last (List.mem_of_getLast? hlast))
        · exact hkept ((hpushed x).mpr (.inr rfl)) rfl isLE_refl
      · rw [if_neg hover]
        refine ⟨hsorted, hdistinct, by omega, hin, fun x hx => ?_⟩
        rcases hmem x hx with hx | rfl
        · rcases h.covers x hx with ⟨y, hy, hxy, hyx⟩ | ⟨hlimit, _⟩
          · exact .inl ⟨y, (hpushed y).mpr (.inl hy), hxy, hyx⟩
          · omega
        · exact .inl ⟨x, (hpushed x).mpr (.inr rfl), rfl, isLE_refl⟩

/-- **All rounds.** -/
theorem keeps_foldl (hnd : l.Nodup) (heq : ∀ x ∈ l, ∀ y ∈ l, cmp x y = .eq → x = y) :
    Keeps cmp key limit l (l.foldl (offer cmp key limit) []) := by
  induction l using List.reverseRecOn with
  | nil => exact keeps_nil
  | append_singleton seen a ih =>
    rw [List.foldl_append, List.foldl_cons, List.foldl_nil]
    obtain ⟨hseen, _, hdisjoint⟩ := List.nodup_append.mp hnd
    have hnew : a ∉ seen := fun hmem => hdisjoint a hmem a (List.mem_singleton_self a) rfl
    have hsub : ∀ x ∈ seen, x ∈ seen ++ [a] := fun x hx => List.mem_append_left _ hx
    exact (ih hseen fun x hx y hy => heq x (hsub x hx) y (hsub y hy)).offer hnew heq

omit [Std.TransCmp cmp] in
theorem mem_bests : a ∈ bests cmp key l ↔ a ∈ l ∧ ∀ b ∈ l, key b = key a → (cmp b a).isLT = false := by
  unfold bests
  rw [List.mem_filter, List.all_eq_true]
  simp only [decide_eq_true_eq]

/-- **The buffer has the first of the best elements.** -/
theorem offered_eq (hnd : l.Nodup) (heq : ∀ x ∈ l, ∀ y ∈ l, cmp x y = .eq → x = y) :
    l.foldl (offer cmp key limit) [] = ((bests cmp key l).mergeSort fun a b => (cmp a b).isLE).take limit := by
  classical
  have h : Keeps cmp key limit l (l.foldl (offer cmp key limit) []) := keeps_foldl hnd heq
  generalize l.foldl (offer cmp key limit) [] = buffer at h
  have hbest : ∀ x ∈ bests cmp key l, x ∈ l := fun x hx => (mem_bests.mp hx).1
  have heqBest : ∀ x ∈ bests cmp key l, ∀ y ∈ bests cmp key l, cmp x y = .eq → x = y :=
    fun x hx y hy => heq x (hbest x hx) y (hbest y hy)
  have hndBest : (bests cmp key l).Nodup := hnd.filter _
  have hirrefl : ∀ {x : α}, (cmp x x).isLT = false := by
    intro x
    have hself : cmp x x = .eq := Std.ReflCmp.compare_self
    rw [hself]
    rfl
  -- what the buffer has is best
  have hin : ∀ x ∈ buffer, x ∈ bests cmp key l := by
    intro x hx
    refine mem_bests.mpr ⟨h.subset x hx, fun y hy hkey => ?_⟩
    rcases h.covers y hy with ⟨z, hz, hzy, hle⟩ | ⟨_, hall⟩
    · have hnodup : (buffer.map key).Nodup := List.pairwise_map.mpr h.distinct
      have hsame : z = x := List.inj_on_of_nodup_map hnodup hz hx (hzy.trans hkey)
      subst hsame
      by_contra hlt
      rw [Bool.not_eq_false] at hlt
      have hself := isLT_of_isLT_of_isLE hlt hle
      rw [hirrefl] at hself
      cases hself
    · exact isLT_asymm x y (hall x hx)
  -- and the other best elements come after all of a full buffer
  have hrest : ∀ x ∈ bests cmp key l, x ∉ buffer → buffer.length = limit ∧ ∀ b ∈ buffer, (cmp b x).isLT = true := by
    intro x hx hnot
    obtain ⟨hxl, hbestx⟩ := mem_bests.mp hx
    rcases h.covers x hxl with ⟨y, hy, hkey, hle⟩ | hfull
    · exfalso
      have hlt := hbestx y (h.subset y hy) hkey
      have hcmp : cmp y x = .eq := by
        cases hc : cmp y x with
        | lt =>
          rw [hc] at hlt
          cases hlt
        | eq => rfl
        | gt =>
          rw [hc] at hle
          cases hle
      exact hnot (heq y (h.subset y hy) x hxl hcmp ▸ hy)
    · exact hfull
  have hsorted := sorted_mergeSort hndBest heqBest
  have hperm := List.mergeSort_perm (bests cmp key l) fun a b => (cmp a b).isLE
  have hndRest : ((bests cmp key l).filter fun x => x ∉ buffer).Nodup := hndBest.filter _
  have hrestSub : ∀ x ∈ (bests cmp key l).filter (fun x => x ∉ buffer), x ∈ bests cmp key l ∧ x ∉ buffer := by
    intro x hx
    rw [List.mem_filter, decide_eq_true_eq] at hx
    exact hx
  have hpermRest := List.mergeSort_perm ((bests cmp key l).filter fun x => x ∉ buffer) fun a b => (cmp a b).isLE
  have hsortedRest := sorted_mergeSort hndRest fun x hx y hy =>
    heqBest x (hrestSub x hx).1 y (hrestSub y hy).1
  have hsplit : (bests cmp key l).mergeSort (fun a b => (cmp a b).isLE) =
      buffer ++ ((bests cmp key l).filter fun x => x ∉ buffer).mergeSort fun a b => (cmp a b).isLE := by
    refine eq_of_sorted hsorted ?_ fun x => ?_
    · refine List.pairwise_append.mpr ⟨h.sorted, hsortedRest, fun b hb x hx => ?_⟩
      obtain ⟨hx, hnot⟩ := hrestSub x (hpermRest.mem_iff.mp hx)
      exact (hrest x hx hnot).2 b hb
    · rw [hperm.mem_iff, List.mem_append, hpermRest.mem_iff, List.mem_filter, decide_eq_true_eq]
      constructor
      · intro hx
        by_cases hmem : x ∈ buffer
        · exact .inl hmem
        · exact .inr ⟨hx, hmem⟩
      · rintro (hx | hx)
        · exact hin x hx
        · exact hx.1
  rw [hsplit]
  cases hcase : ((bests cmp key l).filter fun x => x ∉ buffer).mergeSort fun a b => (cmp a b).isLE with
  | nil => rw [List.append_nil, List.take_of_length_le h.length_le]
  | cons x rest =>
    have hx : x ∈ ((bests cmp key l).filter fun x => x ∉ buffer).mergeSort fun a b => (cmp a b).isLE := by
      rw [hcase]
      exact List.mem_cons_self
    obtain ⟨hx, hnot⟩ := hrestSub x (hpermRest.mem_iff.mp hx)
    rw [← (hrest x hx hnot).1, List.take_left]

end AnimaCore.Lib
