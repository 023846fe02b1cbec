import AnimaCore.Lib.Fallible

/-!
# AnimaCore.Lib.Table — ordered maps and sets

`Table κ ν` is an ordered map up to extensionality and `KeySet κ` an ordered set: two tables with the same entries
are equal, so that equality of whole states is equality of what they store.

* `getElem?_insert_eq`, `getElem?_erase_eq`, `getElem?_modify_eq`: lookups after a write, by equality of keys.
* `find?_key_eq_some`: the entry of a key in a list with distinct keys.
* `getElem?_foldl_insert`: lookups after the loop that writes many entries; `getElem?_foldl_upsert`: after the loop that
  updates them.  `overlay t p g` is the loop that writes the entries of one table over those of another.
* `toList_insert_perm`, `toList_perm_erase`: the entries of a table with one of them in front.
* `foldlM_toList`: a loop that reads the entries of a table back, each as a new one, gives the table.
* `size_le_of_injective`: a table is no larger than one that has a key of its own for each of its entries.
* `keys_eq_range`: the keys of a table that is numbered from one without gaps.
* `eq_of_perm_of_pairwise`: two lists with strictly increasing keys and the same members are equal.
* `KeySet.toList_insert_perm`: the members after a new one is added.
-/

namespace AnimaCore.Lib

/-- An ordered map. -/
abbrev Table (κ : Type) [Ord κ] (ν : Type) := Std.ExtTreeMap κ ν compare

/-- An ordered set. -/
abbrev KeySet (κ : Type) [Ord κ] := Std.ExtTreeSet κ compare

variable {κ ν μ α ε : Type} [Ord κ] [Std.TransOrd κ] [Std.LawfulEqOrd κ] {t : Table κ ν}

/-! ## Maps -/

namespace Table

/-! ### Lookups -/

theorem getElem?_insert_eq [DecidableEq κ] (k a : κ) (v : ν) :
    (t.insert k v)[a]? = if k = a then some v else t[a]? := by
  rw [Std.ExtTreeMap.getElem?_insert]
  simp only [Std.LawfulEqCmp.compare_eq_iff_eq]

theorem getElem?_erase_eq [DecidableEq κ] (k a : κ) : (t.erase k)[a]? = if k = a then none else t[a]? := by
  rw [Std.ExtTreeMap.getElem?_erase]
  simp only [Std.LawfulEqCmp.compare_eq_iff_eq]

theorem getElem?_modify_eq [DecidableEq κ] (k a : κ) (f : ν → ν) :
    (t.modify k f)[a]? = if k = a then t[k]?.map f else t[a]? := by
  rw [Std.ExtTreeMap.getElem?_modify]
  simp only [Std.LawfulEqCmp.compare_eq_iff_eq]

omit [Std.LawfulEqOrd κ] in
theorem mem_iff_getElem?_isSome {a : κ} : a ∈ t ↔ t[a]?.isSome := by
  rw [Std.ExtTreeMap.mem_iff_isSome_getElem?]

omit [Std.LawfulEqOrd κ] in
theorem not_mem_iff_getElem?_eq_none {a : κ} : a ∉ t ↔ t[a]? = none := by
  rw [mem_iff_getElem?_isSome]
  simp

omit [Std.LawfulEqOrd κ] in
theorem mem_of_getElem? {a : κ} {v : ν} (h : t[a]? = some v) : a ∈ t := by
  rw [mem_iff_getElem?_isSome, h]
  rfl

theorem mem_toList {a : κ} {v : ν} : (a, v) ∈ t.toList ↔ t[a]? = some v :=
  Std.ExtTreeMap.mem_toList_iff_getElem?_eq_some

theorem ext_getElem? {t' : Table κ ν} (h : ∀ a : κ, t[a]? = t'[a]?) : t = t' := Std.ExtTreeMap.ext_getElem? h

omit [Std.LawfulEqOrd κ] in
theorem nodup_toList_fst (t : Table κ ν) : (t.toList.map Prod.fst).Nodup := by
  rw [Std.ExtTreeMap.map_fst_toList_eq_keys]
  exact Std.ExtTreeMap.nodup_keys

omit [Std.LawfulEqOrd κ] in
theorem nodup_toList (t : Table κ ν) : t.toList.Nodup := (nodup_toList_fst t).of_map

/-! ### Writing and reading many entries -/

omit [Ord κ] [Std.TransOrd κ] [Std.LawfulEqOrd κ] in
theorem find?_key_eq_some [DecidableEq κ] {kf : α → κ} {l : List α} (hn : (l.map kf).Nodup) {a : κ} {e : α} :
    (l.find? fun e => decide (kf e = a)) = some e ↔ e ∈ l ∧ kf e = a := by
  constructor
  · intro h
    have hkey := List.find?_some h
    exact ⟨List.mem_of_find?_eq_some h, of_decide_eq_true hkey⟩
  · rintro ⟨he, rfl⟩
    have hsome : (l.find? fun x => decide (kf x = kf e)).isSome := by
      rw [List.find?_isSome]
      exact ⟨e, he, decide_eq_true rfl⟩
    obtain ⟨x, hx⟩ := Option.isSome_iff_exists.mp hsome
    have hkey := List.find?_some hx
    rw [hx, List.inj_on_of_nodup_map hn (List.mem_of_find?_eq_some hx) he (of_decide_eq_true hkey)]

theorem getElem?_foldl_insert [DecidableEq κ] (kf : α → κ) (vf : α → ν) {l : List α} (hn : (l.map kf).Nodup) (a : κ) :
    (l.foldl (fun t e => t.insert (kf e) (vf e)) t)[a]? =
      ((l.find? fun e => decide (kf e = a)).map vf).or t[a]? := by
  induction l generalizing t with
  | nil => simp
  | cons e l ih =>
    rw [List.map_cons, List.nodup_cons] at hn
    rw [List.foldl_cons, ih hn.2, getElem?_insert_eq, List.find?_cons]
    by_cases ha : kf e = a
    · have hnone : (l.find? fun e => decide (kf e = a)) = none := by
        rw [List.find?_eq_none]
        intro x hx hxa
        rw [decide_eq_true_eq] at hxa
        exact hn.1 (List.mem_map.mpr ⟨x, hx, hxa.trans ha.symm⟩)
      simp [ha, hnone]
    · simp [ha]

/-- Lookups after the loop that updates one entry for each element: the updates of the other keys do not matter. -/
theorem getElem?_foldl_upsert [DecidableEq κ] (kf : α → κ) (start : α → ν) (f : ν → α → ν) (l : List α) (a : κ) :
    (l.foldl (fun t e => t.insert (kf e) (f (t[kf e]?.getD (start e)) e)) t)[a]? =
      (l.filter fun e => decide (kf e = a)).foldl (fun o e => some (f (o.getD (start e)) e)) t[a]? := by
  induction l generalizing t with
  | nil => rfl
  | cons e l ih =>
    rw [List.foldl_cons, ih, getElem?_insert_eq]
    by_cases ha : kf e = a
    · subst ha
      simp
    · simp [ha]

/-- The entries of `p` written over those of `t`. -/
def overlay (t : Table κ ν) (p : Table κ μ) (g : μ → ν) : Table κ ν :=
  p.toList.foldl (fun t e => t.insert e.1 (g e.2)) t

theorem getElem?_overlay [DecidableEq κ] {p : Table κ μ} {g : μ → ν} (a : κ) :
    (overlay t p g)[a]? = (p[a]?.map g).or t[a]? := by
  rw [overlay, getElem?_foldl_insert Prod.fst (fun e => g e.2) (nodup_toList_fst p)]
  congr 1
  cases hp : p[a]? with
  | none =>
    have hnone : (p.toList.find? fun e => decide (e.1 = a)) = none := by
      rw [List.find?_eq_none]
      intro e he hea
      rw [decide_eq_true_eq] at hea
      subst hea
      rw [mem_toList.mp he] at hp
      cases hp
    simp [hnone]
  | some v =>
    have hsome : (p.toList.find? fun e => decide (e.1 = a)) = some (a, v) := by
      obtain ⟨e, he⟩ : ∃ e, (p.toList.find? fun e => decide (e.1 = a)) = some e := by
        rw [← Option.isSome_iff_exists, List.find?_isSome]
        exact ⟨(a, v), mem_toList.mpr hp, by simp⟩
      have hkey : e.1 = a := by simpa using List.find?_some he
      have hval := mem_toList.mp (List.mem_of_find?_eq_some he)
      rw [hkey, hp] at hval
      rw [he, ← hkey, Option.some.inj hval]
    simp [hsome]

theorem insert_self_eq [DecidableEq κ] {k : κ} {v : ν} (h : t[k]? = some v) : t.insert k v = t := by
  refine ext_getElem? fun a => ?_
  rw [getElem?_insert_eq]
  split_ifs with ha
  · rw [← ha, h]
  · rfl

theorem insert_back [DecidableEq κ] {k : κ} {v w : ν} (h : t[k]? = some v) : (t.insert k w).insert k v = t := by
  refine ext_getElem? fun a => ?_
  rw [getElem?_insert_eq, getElem?_insert_eq]
  split_ifs with hk
  · rw [← hk, h]
  · rfl

theorem overlay_empty [DecidableEq κ] {g : μ → ν} : overlay t ∅ g = t := by
  refine ext_getElem? fun a => ?_
  rw [getElem?_overlay]
  simp

theorem overlay_insert [DecidableEq κ] {p : Table κ μ} {g : μ → ν} {k : κ} {m : μ} :
    overlay t (p.insert k m) g = (overlay t p g).insert k (g m) := by
  refine ext_getElem? fun a => ?_
  rw [getElem?_overlay, getElem?_insert_eq, getElem?_insert_eq, getElem?_overlay]
  split_ifs <;> rfl

theorem not_mem_erase_self {k : κ} : k ∉ t.erase k := by simp

theorem toList_insert_perm {k : κ} {v : ν} [DecidableEq κ] (h : k ∉ t) : (t.insert k v).toList.Perm ((k, v) :: t.toList) := by
  have hn : ((k, v) :: t.toList).Nodup :=
    List.nodup_cons.mpr ⟨fun hk => h (mem_of_getElem? (mem_toList.mp hk)), nodup_toList t⟩
  rw [List.perm_ext_iff_of_nodup (nodup_toList _) hn]
  rintro ⟨a, b⟩
  rw [mem_toList, getElem?_insert_eq, List.mem_cons, mem_toList, Prod.mk.injEq]
  have hk := not_mem_iff_getElem?_eq_none.mp h
  by_cases ha : k = a
  · subst ha
    simp [hk, eq_comm]
  · simp [ha, Ne.symm ha]

theorem toList_perm_erase [DecidableEq κ] {k : κ} {v : ν} (h : t[k]? = some v) :
    t.toList.Perm ((k, v) :: (t.erase k).toList) := by
  have hback : (t.erase k).insert k v = t := by
    refine ext_getElem? fun a => ?_
    rw [getElem?_insert_eq, getElem?_erase_eq]
    split_ifs with ha
    · rw [← ha, h]
    · rfl
  have hperm := toList_insert_perm (v := v) (not_mem_erase_self (t := t) (k := k))
  rwa [hback] at hperm

theorem erase_insert_self [DecidableEq κ] {k : κ} {v : ν} : (t.insert k v).erase k = t.erase k := by
  refine ext_getElem? fun a => ?_
  rw [getElem?_erase_eq, getElem?_insert_eq, getElem?_erase_eq]
  split_ifs <;> rfl

theorem erase_insert_new [DecidableEq κ] {k : κ} {v : ν} (h : t[k]? = none) : (t.insert k v).erase k = t := by
  rw [erase_insert_self]
  refine ext_getElem? fun a => ?_
  rw [getElem?_erase_eq]
  split_ifs with hk
  · rw [← hk, h]
  · rfl

theorem foldl_insert_toList [DecidableEq κ] (t : Table κ ν) : t.toList.foldl (fun t e => t.insert e.1 e.2) ∅ = t := by
  refine ext_getElem? fun a => ?_
  rw [← overlay.eq_def ∅ t fun v => v, getElem?_overlay]
  simp

theorem foldlM_insert [DecidableEq κ] {β : Type} {tab : β → Table κ ν} {enc : κ × ν → α} {f : β → α → Except ε β}
    {l : List (κ × ν)} (hn : (l.map Prod.fst).Nodup)
    (hf : ∀ e ∈ l, ∀ acc, e.1 ∉ tab acc → ∃ acc', f acc (enc e) = .ok acc' ∧ tab acc' = (tab acc).insert e.1 e.2)
    (acc : β) (hnew : ∀ e ∈ l, e.1 ∉ tab acc) :
    ∃ acc', (l.map enc).foldlM f acc = .ok acc' ∧ tab acc' = l.foldl (fun t e => t.insert e.1 e.2) (tab acc) := by
  induction l generalizing acc with
  | nil => exact ⟨acc, rfl, rfl⟩
  | cons e l ih =>
    rw [List.map_cons, List.nodup_cons] at hn
    obtain ⟨acc', hstep, htab⟩ := hf e List.mem_cons_self acc (hnew e List.mem_cons_self)
    have hrest : ∀ e' ∈ l, e'.1 ∉ tab acc' := by
      intro e' he' hmem
      rw [htab, Std.ExtTreeMap.mem_insert, Std.LawfulEqCmp.compare_eq_iff_eq] at hmem
      obtain heq | hmem := hmem
      · exact hn.1 (List.mem_map.mpr ⟨e', he', heq.symm⟩)
      · exact hnew e' (List.mem_cons_of_mem _ he') hmem
    obtain ⟨acc'', hfold, hend⟩ := ih hn.2 (fun e' he' => hf e' (List.mem_cons_of_mem _ he')) acc' hrest
    refine ⟨acc'', ?_, by rw [hend, htab, List.foldl_cons]⟩
    rw [List.map_cons, List.foldlM_cons, hstep]
    exact hfold

/-- **Round trip of a table** in the state of a loop. -/
theorem read_back [DecidableEq κ] {β : Type} (tab : β → Table κ ν) (enc : κ × ν → α) {f : β → α → Except ε β} {a : β}
    (hempty : tab a = ∅)
    (hf : ∀ e ∈ t.toList, ∀ acc, e.1 ∉ tab acc → ∃ acc', f acc (enc e) = .ok acc' ∧
      tab acc' = (tab acc).insert e.1 e.2) :
    ∃ acc', (t.toList.map enc).foldlM f a = .ok acc' ∧ tab acc' = t := by
  obtain ⟨acc', hfold, hend⟩ := foldlM_insert (nodup_toList_fst t) hf a (by simp [hempty])
  exact ⟨acc', hfold, by rw [hend, hempty, foldl_insert_toList]⟩

/-- **Round trip of a table**: reading its entries back gives the table. -/
theorem foldlM_toList [DecidableEq κ] {enc : κ × ν → α} {f : Table κ ν → α → Except ε (Table κ ν)}
    (hf : ∀ e ∈ t.toList, ∀ t', e.1 ∉ t' → f t' (enc e) = .ok (t'.insert e.1 e.2)) :
    (t.toList.map enc).foldlM f ∅ = .ok t := by
  obtain ⟨t', hfold, rfl⟩ := read_back (t := t) (fun t' => t') enc rfl
    fun e he t' hnew => ⟨_, hf e he t' hnew, rfl⟩
  exact hfold

theorem keys_eq_range {t : Table ℕ ν} {n : ℕ} (h : ∀ a, a ∈ t ↔ 1 ≤ a ∧ a ≤ n) :
    t.keys = (List.range n).map (· + 1) := by
  have hperm : t.keys.Perm ((List.range n).map (· + 1)) := by
    rw [List.perm_ext_iff_of_nodup Std.ExtTreeMap.nodup_keys (List.nodup_range.map fun a b => by simp)]
    intro a
    rw [Std.ExtTreeMap.mem_keys, h, List.mem_map]
    constructor
    · rintro ⟨h1, h2⟩
      exact ⟨a - 1, List.mem_range.mpr (by omega), by omega⟩
    · rintro ⟨b, hb, rfl⟩
      rw [List.mem_range] at hb
      omega
  have hl : t.keys.Pairwise (· < ·) :=
    (Std.ExtTreeMap.ordered_keys (t := t)).imp fun hab => Nat.compare_eq_lt.mp hab
  have hr : ((List.range n).map (· + 1)).Pairwise (· < ·) :=
    List.pairwise_lt_range.map _ fun a b hab => by simpa using hab
  exact hperm.eq_of_pairwise (fun a b _ _ hab hba => by omega) hl hr

omit [Std.LawfulEqOrd κ] in
theorem size_insert_of_getElem? {k : κ} {v : ν} (h : t[k]? = some v) (v' : ν) : (t.insert k v').size = t.size := by
  rw [Std.ExtTreeMap.size_insert]
  exact if_pos (mem_of_getElem? h)

theorem size_eq_of_mem_iff {t : Table κ ν} {t' : Table κ μ} (h : ∀ k, k ∈ t ↔ k ∈ t') : t.size = t'.size := by
  rw [← Std.ExtTreeMap.length_keys, ← Std.ExtTreeMap.length_keys]
  refine List.Perm.length_eq ?_
  rw [List.perm_ext_iff_of_nodup Std.ExtTreeMap.nodup_keys Std.ExtTreeMap.nodup_keys]
  intro k
  rw [Std.ExtTreeMap.mem_keys, Std.ExtTreeMap.mem_keys, h]

theorem size_le_of_injective {ι : Type} [Ord ι] [Std.TransOrd ι] [Std.LawfulEqOrd ι] {t' : Table ι μ} (f : ν → ι)
    (hmem : ∀ (k : κ) v, t[k]? = some v → f v ∈ t')
    (hinj : ∀ (k : κ) v (k' : κ) v', t[k]? = some v → t[k']? = some v' → f v = f v' → k = k') : t.size ≤ t'.size := by
  have hnodup : (t.toList.map fun e => f e.2).Nodup := by
    refine List.Nodup.map_on ?_ (nodup_toList t)
    rintro ⟨k, v⟩ hv ⟨k', v'⟩ hv' heq
    rw [mem_toList] at hv hv'
    have hk : k = k' := hinj k v k' v' hv hv' heq
    subst hk
    rw [hv] at hv'
    rw [Option.some.inj hv']
  have hsub : (t.toList.map fun e => f e.2) ⊆ t'.keys := by
    intro i hi
    obtain ⟨⟨k, v⟩, hv, rfl⟩ := List.mem_map.mp hi
    exact Std.ExtTreeMap.mem_keys.mpr (hmem k v (mem_toList.mp hv))
  have hlen := (List.subperm_of_subset hnodup hsub).length_le
  rwa [List.length_map, Std.ExtTreeMap.length_toList, Std.ExtTreeMap.length_keys] at hlen

/-! ### Increasing keys -/

omit [Std.LawfulEqOrd κ] in
theorem pairwise_of_isChain {keys : List κ} (h : keys.IsChain fun a b => compare a b = .lt) :
    keys.Pairwise fun a b => compare a b = .lt := by
  have : Trans (fun a b : κ => compare a b = .lt) (fun a b => compare a b = .lt) (fun a b => compare a b = .lt) :=
    ⟨Std.TransCmp.lt_trans⟩
  exact List.isChain_iff_pairwise.mp h

omit [Std.LawfulEqOrd κ] in
theorem nodup_of_pairwise {key : α → κ} {l : List α} (h : (l.map key).Pairwise fun a b => compare a b = .lt) :
    l.Nodup := by
  refine List.Nodup.of_map key (h.imp ?_)
  rintro a _ hab rfl
  simp at hab

omit [Std.LawfulEqOrd κ] in
theorem eq_of_perm_of_pairwise {key : α → κ} {l l' : List α} (hp : l.Perm l')
    (hl : (l.map key).Pairwise fun a b => compare a b = .lt)
    (hl' : (l'.map key).Pairwise fun a b => compare a b = .lt) : l = l' := by
  rw [List.pairwise_map] at hl hl'
  refine hp.eq_of_pairwise ?_ hl hl'
  intro a b _ _ hab hba
  have := Std.TransCmp.lt_trans hab hba
  simp at this

end Table

/-! ## Sets -/

namespace KeySet

variable {t : KeySet κ}

theorem mem_insert_iff {k a : κ} : a ∈ t.insert k ↔ k = a ∨ a ∈ t := by
  rw [Std.ExtTreeSet.mem_insert, Std.LawfulEqCmp.compare_eq_iff_eq]

theorem nodup_toList (t : KeySet κ) : t.toList.Nodup := by
  refine Std.ExtTreeSet.distinct_toList.imp ?_
  rintro a b hab rfl
  exact hab Std.ReflCmp.compare_self

theorem toList_insert_perm {k : κ} (h : k ∉ t) : (t.insert k).toList.Perm (k :: t.toList) := by
  have hn : (k :: t.toList).Nodup := List.nodup_cons.mpr ⟨fun hk => h (Std.ExtTreeSet.mem_toList.mp hk), nodup_toList t⟩
  rw [List.perm_ext_iff_of_nodup (nodup_toList _) hn]
  intro a
  rw [Std.ExtTreeSet.mem_toList, mem_insert_iff, List.mem_cons, Std.ExtTreeSet.mem_toList, eq_comm]

theorem countP_eq_one {p : κ → Bool} {k : κ} (hk : k ∈ t) (hp : p k = true)
    (honce : ∀ k' ∈ t, p k' = true → k' = k) : t.toList.countP p = 1 := by
  have hperm : (t.toList.filter p).Perm [k] := by
    rw [List.perm_ext_iff_of_nodup ((nodup_toList t).filter p) (List.nodup_singleton k)]
    intro k'
    rw [List.mem_filter, Std.ExtTreeSet.mem_toList, List.mem_singleton]
    constructor
    · rintro ⟨hmem, hp'⟩
      exact honce k' hmem hp'
    · rintro rfl
      exact ⟨hk, hp⟩
  rw [List.countP_eq_length_filter, hperm.length_eq, List.length_singleton]

theorem foldl_insert_toList (t : KeySet κ) : t.toList.foldl (fun t k => t.insert k) ∅ = t := by
  have hmem : ∀ (l : List κ) (t : KeySet κ) (a : κ), a ∈ l.foldl (fun t k => t.insert k) t ↔ a ∈ l ∨ a ∈ t := by
    intro l
    induction l with
    | nil => simp
    | cons k l ih =>
      intro t a
      rw [List.foldl_cons, ih, mem_insert_iff, List.mem_cons, eq_comm, or_assoc, or_left_comm]
  refine Std.ExtTreeSet.ext_mem fun a => ?_
  rw [hmem, Std.ExtTreeSet.mem_toList]
  simp

/-- **Round trip of a set**: reading its members back gives the set. -/
theorem foldlM_toList {f : KeySet κ → κ → Except ε (KeySet κ)} (hf : ∀ k t', k ∉ t' → f t' k = .ok (t'.insert k)) :
    t.toList.foldlM f ∅ = .ok t := by
  have hloop : ∀ (l : List κ) (t : KeySet κ), l.Nodup → (∀ k ∈ l, k ∉ t) →
      l.foldlM f t = .ok (l.foldl (fun t k => t.insert k) t) := by
    intro l
    induction l with
    | nil =>
      intro t _ _
      rfl
    | cons k l ih =>
      intro t hn hnew
      rw [List.nodup_cons] at hn
      rw [List.foldlM_cons, hf k t (hnew k List.mem_cons_self), List.foldl_cons]
      refine ih _ hn.2 fun k' hk' hmem => ?_
      obtain rfl | hmem := mem_insert_iff.mp hmem
      · exact hn.1 hk'
      · exact hnew k' (List.mem_cons_of_mem _ hk') hmem
  rw [hloop t.toList ∅ (nodup_toList t) (by simp), foldl_insert_toList]

end KeySet

end AnimaCore.Lib
