import AnimaCore.Lib.Table

/-!
# AnimaCore.Lib.Sweep — changing many entries of a table at once

* `vals t`: the values of a table, in the order of their keys.
* `eraseAll t keys`, `modifyAll t keys f`: the loops that remove or change the entries of some keys.
* `load key t l`: the loop that writes values under keys of their own; `load_vals`: a table whose keys are those of its
  values is what its values write, in any order.
* `foldl_keeps`: what no step of a loop changes.
-/

namespace AnimaCore.Lib

theorem foldl_keeps {σ α β : Type} {f : σ → α → σ} {g : σ → β} (h : ∀ s a, g (f s a) = g s) (l : List α) (s : σ) :
    g (l.foldl f s) = g s := by
  induction l generalizing s with
  | nil => rfl
  | cons a l ih => exact (ih (f s a)).trans (h s a)

namespace Table

variable {κ ν α : Type} [Ord κ] [Std.TransOrd κ] [Std.LawfulEqOrd κ] [DecidableEq κ] {t : Table κ ν}

def vals {κ ν : Type} [Ord κ] [Std.TransOrd κ] (t : Table κ ν) : List ν := t.toList.map Prod.snd

def eraseAll {κ ν : Type} [Ord κ] [Std.TransOrd κ] (t : Table κ ν) (keys : List κ) : Table κ ν :=
  keys.foldl (fun t k => t.erase k) t

def modifyAll {κ ν : Type} [Ord κ] [Std.TransOrd κ] (t : Table κ ν) (keys : List κ) (f : ν → ν) : Table κ ν :=
  keys.foldl (fun t k => t.modify k f) t

def load {κ ν : Type} [Ord κ] [Std.TransOrd κ] (key : ν → κ) (t : Table κ ν) (l : List ν) : Table κ ν :=
  l.foldl (fun t v => t.insert (key v) v) t

omit [DecidableEq κ] in
theorem mem_vals {v : ν} : v ∈ vals t ↔ ∃ k : κ, t[k]? = some v := by
  unfold vals
  rw [List.mem_map]
  constructor
  · rintro ⟨⟨k, v⟩, hmem, rfl⟩
    exact ⟨k, mem_toList.mp hmem⟩
  · rintro ⟨k, hk⟩
    exact ⟨(k, v), mem_toList.mpr hk, rfl⟩

theorem getElem?_eraseAll (keys : List κ) (a : κ) : (eraseAll t keys)[a]? = if a ∈ keys then none else t[a]? := by
  unfold eraseAll
  induction keys generalizing t with
  | nil => simp
  | cons k keys ih =>
    rw [List.foldl_cons, ih, getElem?_erase_eq]
    by_cases ha : k = a
    · subst ha
      simp
    · simp [ha, Ne.symm ha]

theorem getElem?_modifyAll {f : ν → ν} (hf : ∀ v, f (f v) = f v) (keys : List κ) (a : κ) :
    (modifyAll t keys f)[a]? = if a ∈ keys then t[a]?.map f else t[a]? := by
  unfold modifyAll
  induction keys generalizing t with
  | nil => simp
  | cons k keys ih =>
    rw [List.foldl_cons, ih, getElem?_modify_eq]
    by_cases ha : k = a
    · subst ha
      by_cases hmem : k ∈ keys
      · simp [hmem, Function.comp_def, hf]
      · simp [hmem]
    · simp [ha, Ne.symm ha]

omit [Std.LawfulEqOrd κ] [DecidableEq κ] in
theorem foldl_load {σ : Type} {key : ν → κ} {f : σ → ν → σ} {g : σ → Table κ ν}
    (h : ∀ s v, g (f s v) = (g s).insert (key v) v) (l : List ν) (s : σ) : g (l.foldl f s) = load key (g s) l := by
  induction l generalizing s with
  | nil => rfl
  | cons v l ih => exact (ih (f s v)).trans (congrArg (fun t => load key t l) (h s v))

theorem getElem?_load {key : ν → κ} {l : List ν} {a : κ} {v : ν} (h : (load key t l)[a]? = some v) :
    (key v = a ∧ v ∈ l) ∨ t[a]? = some v := by
  unfold load at h
  induction l generalizing t with
  | nil => exact .inr h
  | cons x l ih =>
    rw [List.foldl_cons] at h
    rcases ih h with ⟨hkey, hmem⟩ | hin
    · exact .inl ⟨hkey, List.mem_cons_of_mem _ hmem⟩
    · rw [getElem?_insert_eq] at hin
      split_ifs at hin with hx
      · obtain rfl := Option.some.inj hin
        exact .inl ⟨hx, List.mem_cons_self⟩
      · exact .inr hin

omit [DecidableEq κ] in
theorem nodup_key_vals {key : ν → κ} (hkey : ∀ (k : κ) v, t[k]? = some v → key v = k) : ((vals t).map key).Nodup := by
  have hfst : (vals t).map key = t.toList.map Prod.fst := by
    unfold vals
    rw [List.map_map]
    refine List.map_congr_left ?_
    rintro ⟨k, v⟩ hmem
    exact hkey k v (mem_toList.mp hmem)
  rw [hfst]
  exact nodup_toList_fst t

/-- **A table is what its values write**, in any order, over a table that has no other keys. -/
theorem load_vals {key : ν → κ} (hkey : ∀ (k : κ) v, t[k]? = some v → key v = k) {base : Table κ ν}
    (hbase : ∀ k : κ, k ∈ base → k ∈ t) {l : List ν} (hl : l.Perm (vals t)) : load key base l = t := by
  have hn : (l.map key).Nodup := (hl.map key).nodup_iff.mpr (nodup_key_vals hkey)
  refine ext_getElem? fun a => ?_
  unfold load
  rw [getElem?_foldl_insert key (fun v => v) hn]
  rcases hfind : l.find? fun v => decide (key v = a) with _ | v
  · rcases hta : t[a]? with _ | v
    · have hnone : base[a]? = none := by
        rcases hb : base[a]? with _ | v
        · rfl
        · have hin : a ∈ t := hbase a (by rw [mem_iff_getElem?_isSome, hb]; rfl)
          rw [mem_iff_getElem?_isSome, hta] at hin
          exact absurd hin (by simp)
      simp [hnone]
    · have hv : v ∈ l := hl.mem_iff.mpr (mem_vals.mpr ⟨a, hta⟩)
      have := List.find?_eq_none.mp hfind v hv
      simp [hkey a v hta] at this
  · have hmem := List.mem_of_find?_eq_some hfind
    have hva : key v = a := by simpa using List.find?_some hfind
    obtain ⟨k, hk⟩ := mem_vals.mp (hl.mem_iff.mp hmem)
    have hka : k = a := (hkey k v hk).symm.trans hva
    rw [hka] at hk
    simp [hk]

theorem getElem?_of_erase {key a : κ} {v : ν} (h : (t.erase key)[a]? = some v) : t[a]? = some v := by
  rw [getElem?_erase_eq] at h
  split_ifs at h
  exact h

theorem getElem?_of_eraseAll {keys : List κ} {a : κ} {v : ν} (h : (eraseAll t keys)[a]? = some v) : t[a]? = some v := by
  rw [getElem?_eraseAll] at h
  split_ifs at h
  exact h

omit [DecidableEq κ] in
theorem getElem?_of_filter {keep : κ → ν → Bool} {a : κ} {v : ν} (h : (t.filter keep)[a]? = some v) : t[a]? = some v := by
  rw [Std.ExtTreeMap.getElem?_filter'] at h
  exact Option.eq_some_of_filter_eq_some h

end Table

end AnimaCore.Lib
