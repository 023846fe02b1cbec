import AnimaCore.Lib.Table

/-!
# AnimaCore.Lib.Sequence — tables that remember the order of insertion

A table `t` with a second table `order` that numbers the keys of `t` from one, in the order they were added.

* `Ordered order t next`: `order` numbers exactly the keys of `t`, each once, by `1, …, next - 1`.
* `Numbered isNew p start next`: the patch `p` gives the numbers `start, …, next - 1` to its new keys, each once.
* `Ordered.extend`: writing such a patch into both tables keeps them ordered.
* `Ordered.keys_eq`, `Ordered.maxKey?_eq`, `Ordered.getElem_toList`: the numbers of an ordered table.
* `Ordered.prefix_toList`: an order that keeps its numbers only grows at its end; `filter_between`: a stretch of it.
* `Follows isRoot pred order`: every key is a root or comes after its predecessor; `Follows.extend` keeps it, and
  `Follows.split` is what it says of the list of keys.
* `listed order t`: the entries of `t` in their order.  `Ordered.read_back`: a loop that reads them back, each as a new
  one, gives both tables.
-/

namespace AnimaCore.Lib

variable {κ ν μ : Type} [Ord κ] [Std.TransOrd κ] [Std.LawfulEqOrd κ] [DecidableEq κ]

/-- The order table numbers the keys of a table from one. -/
structure Ordered (order : Table ℕ κ) (t : Table κ ν) (next : ℕ) : Prop where
  pos : 1 ≤ next
  range : ∀ n, n ∈ order ↔ 1 ≤ n ∧ n < next
  stored : ∀ (n : ℕ) k, order[n]? = some k → k ∈ t
  placed : ∀ k ∈ t, ∃ n : ℕ, order[n]? = some k
  once : ∀ (n m : ℕ) k, order[n]? = some k → order[m]? = some k → n = m

/-- A patch that gives consecutive numbers to its new keys. -/
structure Numbered (isNew : κ → Prop) (p : Table κ (ℕ × μ)) (start next : ℕ) : Prop where
  le : start ≤ next
  bound : ∀ (k : κ) n m, p[k]? = some (n, m) → isNew k → start ≤ n ∧ n < next
  once : ∀ (k k' : κ) n m m', p[k]? = some (n, m) → p[k']? = some (n, m') → isNew k → isNew k' → k = k'
  all : ∀ n, start ≤ n → n < next → ∃ (k : κ) (m : μ), p[k]? = some (n, m) ∧ isNew k

omit [Std.LawfulEqOrd κ] [DecidableEq κ] in
theorem Ordered.empty : Ordered (∅ : Table ℕ κ) (∅ : Table κ ν) 1 := by
  refine ⟨le_rfl, ?_, ?_, ?_, ?_⟩
  · intro n
    simp
    omega
  · intro n k h
    simp at h
  · intro k h
    simp at h
  · intro n m k h
    simp at h

omit [Std.LawfulEqOrd κ] [DecidableEq κ] in
theorem Numbered.empty {isNew : κ → Prop} {start : ℕ} : Numbered isNew (∅ : Table κ (ℕ × μ)) start start := by
  refine ⟨le_rfl, ?_, ?_, ?_⟩
  · intro k n m h
    simp at h
  · intro k k' n m m' h
    simp at h
  · intro n h1 h2
    omega

variable {isNew : κ → Prop} {p : Table κ (ℕ × μ)} {start next : ℕ}

theorem Numbered.insert_new (h : Numbered isNew p start next) {k : κ} (m : μ) (hk : p[k]? = none) (hnew : isNew k) :
    Numbered isNew (p.insert k (next, m)) start (next + 1) := by
  have hle := h.le
  refine ⟨by omega, ?_, ?_, ?_⟩
  · intro k' n m' hk' hnew'
    rw [Table.getElem?_insert_eq] at hk'
    split_ifs at hk' with heq
    · cases hk'
      omega
    · have := h.bound k' n m' hk' hnew'
      omega
  · intro k₁ k₂ n m₁ m₂ h₁ h₂ hn₁ hn₂
    rw [Table.getElem?_insert_eq] at h₁ h₂
    split_ifs at h₁ h₂ with e₁ e₂ e₂
    · exact e₁.symm.trans e₂
    · cases h₁
      have := h.bound k₂ _ m₂ h₂ hn₂
      omega
    · cases h₂
      have := h.bound k₁ _ m₁ h₁ hn₁
      omega
    · exact h.once k₁ k₂ n m₁ m₂ h₁ h₂ hn₁ hn₂
  · intro n h1 h2
    obtain hn | hn := Nat.lt_succ_iff_lt_or_eq.mp h2
    · obtain ⟨k', m', hk', hnew'⟩ := h.all n h1 hn
      have hne : k ≠ k' := by
        rintro rfl
        rw [hk] at hk'
        cases hk'
      exact ⟨k', m', by rw [Table.getElem?_insert_eq, if_neg hne]; exact hk', hnew'⟩
    · subst hn
      exact ⟨k, m, by simp, hnew⟩

theorem Numbered.insert_old (h : Numbered isNew p start next) {k : κ} (v : ℕ × μ) (hold : ¬isNew k) :
    Numbered isNew (p.insert k v) start next := by
  have hne : ∀ {k'}, isNew k' → k ≠ k' := by
    rintro _ hnew rfl
    exact hold hnew
  refine ⟨h.le, ?_, ?_, ?_⟩
  · intro k' n m hk' hnew'
    rw [Table.getElem?_insert_eq, if_neg (hne hnew')] at hk'
    exact h.bound k' n m hk' hnew'
  · intro k₁ k₂ n m₁ m₂ h₁ h₂ hn₁ hn₂
    rw [Table.getElem?_insert_eq, if_neg (hne hn₁)] at h₁
    rw [Table.getElem?_insert_eq, if_neg (hne hn₂)] at h₂
    exact h.once k₁ k₂ n m₁ m₂ h₁ h₂ hn₁ hn₂
  · intro n h1 h2
    obtain ⟨k', m', hk', hnew'⟩ := h.all n h1 h2
    exact ⟨k', m', by rw [Table.getElem?_insert_eq, if_neg (hne hnew')]; exact hk', hnew'⟩

def extendOrder (order : Table ℕ κ) (p : Table κ (ℕ × μ)) : Table ℕ κ :=
  p.toList.foldl (fun order e => order.insert e.2.1 e.1) order

section Extend

variable {order : Table ℕ κ} {t : Table κ ν}

omit [Std.LawfulEqOrd κ] in
theorem Ordered.number_once (ho : Ordered order t start) (hn : Numbered (· ∉ t) p start next)
    (hold : ∀ (k : κ) n m, p[k]? = some (n, m) → k ∈ t → order[n]? = some k) {k k' : κ} {n : ℕ} {m m' : μ}
    (hk : p[k]? = some (n, m)) (hk' : p[k']? = some (n, m')) : k = k' := by
  by_cases ht : k ∈ t
  · have hn₁ := hold k n m hk ht
    by_cases ht' : k' ∈ t
    · exact Option.some.inj (hn₁.symm.trans (hold k' n m' hk' ht'))
    · have hlt := (ho.range n).mp (Table.mem_of_getElem? hn₁)
      have hge := hn.bound k' n m' hk' ht'
      omega
  · by_cases ht' : k' ∈ t
    · have hlt := (ho.range n).mp (Table.mem_of_getElem? (hold k' n m' hk' ht'))
      have hge := hn.bound k n m hk ht
      omega
    · exact hn.once k k' n m m' hk hk' ht ht'

theorem Ordered.getElem?_extendOrder (ho : Ordered order t start) (hn : Numbered (· ∉ t) p start next)
    (hold : ∀ (k : κ) n m, p[k]? = some (n, m) → k ∈ t → order[n]? = some k) (n : ℕ) (k : κ) :
    (extendOrder order p)[n]? = some k ↔
      (∃ m, p[k]? = some (n, m)) ∨ ((∀ (k' : κ) m, p[k']? ≠ some (n, m)) ∧ order[n]? = some k) := by
  have hnodup : (p.toList.map fun e => e.2.1).Nodup := by
    refine (Table.nodup_toList p).map_on ?_
    rintro ⟨k₁, n₁, m₁⟩ h₁ ⟨k₂, n₂, m₂⟩ h₂ heq
    obtain rfl : n₁ = n₂ := heq
    rw [Table.mem_toList] at h₁ h₂
    obtain rfl := ho.number_once hn hold h₁ h₂
    rw [h₁] at h₂
    cases h₂
    rfl
  rw [extendOrder, Table.getElem?_foldl_insert (fun e : κ × ℕ × μ => e.2.1) (fun e => e.1) hnodup]
  cases hf : p.toList.find? fun e => decide (e.2.1 = n) with
  | none =>
    have hnone : ∀ (k' : κ) m, p[k']? ≠ some (n, m) := by
      intro k' m hk'
      have := List.find?_eq_none.mp hf (k', n, m) (Table.mem_toList.mpr hk')
      simp at this
    simp only [Option.map_none, Option.none_or]
    constructor
    · exact fun h => .inr ⟨hnone, h⟩
    · rintro (⟨m, hm⟩ | ⟨_, h⟩)
      · exact absurd hm (hnone k m)
      · exact h
  | some e =>
    obtain ⟨k₀, n₀, m₀⟩ := e
    obtain rfl : n₀ = n := by simpa using List.find?_some hf
    have hk₀ := Table.mem_toList.mp (List.mem_of_find?_eq_some hf)
    simp only [Option.map_some, Option.some_or, Option.some.injEq]
    constructor
    · rintro rfl
      exact .inl ⟨m₀, hk₀⟩
    · rintro (⟨m, hm⟩ | ⟨hnone, _⟩)
      · exact ho.number_once hn hold hk₀ hm
      · exact absurd hk₀ (hnone k₀ m₀)

theorem Ordered.keep (ho : Ordered order t start) (hn : Numbered (· ∉ t) p start next)
    (hold : ∀ (k : κ) n m, p[k]? = some (n, m) → k ∈ t → order[n]? = some k) (n : ℕ) (k : κ)
    (hk : order[n]? = some k) : (extendOrder order p)[n]? = some k := by
  rw [ho.getElem?_extendOrder hn hold]
  by_cases hp : ∃ (k' : κ) (m : μ), p[k']? = some (n, m)
  · obtain ⟨k', m, hk'⟩ := hp
    have hlt := (ho.range n).mp (Table.mem_of_getElem? hk)
    have ht : k' ∈ t := by
      by_contra hnew
      have := hn.bound k' n m hk' hnew
      omega
    obtain rfl : k' = k := Option.some.inj ((hold k' n m hk' ht).symm.trans hk)
    exact .inl ⟨m, hk'⟩
  · exact .inr ⟨fun k' m hk' => hp ⟨k', m, hk'⟩, hk⟩

/-- **Writing a patch keeps the order**: its new keys follow, its old ones keep their numbers. -/
theorem Ordered.extend (ho : Ordered order t start) (hn : Numbered (· ∉ t) p start next)
    (hold : ∀ (k : κ) n m, p[k]? = some (n, m) → k ∈ t → order[n]? = some k) (g : ℕ × μ → ν) :
    Ordered (extendOrder order p) (Table.overlay t p g) next := by
  have hlook := ho.getElem?_extendOrder hn hold
  have hmem : ∀ k, k ∈ Table.overlay t p g ↔ k ∈ p ∨ k ∈ t := by
    intro k
    rw [Table.mem_iff_getElem?_isSome, Table.getElem?_overlay, Table.mem_iff_getElem?_isSome,
      Table.mem_iff_getElem?_isSome]
    cases p[k]? <;> simp
  have hkeep := ho.keep hn hold
  refine ⟨ho.pos.trans hn.le, ?_, ?_, ?_, ?_⟩
  · intro n
    rw [Table.mem_iff_getElem?_isSome, Option.isSome_iff_exists]
    constructor
    · rintro ⟨k, hk⟩
      obtain ⟨m, hm⟩ | ⟨_, hk⟩ := (hlook n k).mp hk
      · by_cases ht : k ∈ t
        · have := (ho.range n).mp (Table.mem_of_getElem? (hold k n m hm ht))
          have := hn.le
          omega
        · have := hn.bound k n m hm ht
          have := ho.pos
          omega
      · have := (ho.range n).mp (Table.mem_of_getElem? hk)
        have := hn.le
        omega
    · rintro ⟨h1, h2⟩
      by_cases hlt : n < start
      · obtain ⟨k, hk⟩ := Option.isSome_iff_exists.mp (Table.mem_iff_getElem?_isSome.mp ((ho.range n).mpr ⟨h1, hlt⟩))
        exact ⟨k, hkeep n k hk⟩
      · obtain ⟨k, m, hk, _⟩ := hn.all n (by omega) h2
        exact ⟨k, (hlook n k).mpr (.inl ⟨m, hk⟩)⟩
  · intro n k hk
    rw [hmem]
    obtain ⟨m, hm⟩ | ⟨_, hk⟩ := (hlook n k).mp hk
    · exact .inl (Table.mem_of_getElem? hm)
    · exact .inr (ho.stored n k hk)
  · intro k hk
    rw [hmem] at hk
    by_cases ht : k ∈ t
    · obtain ⟨n, hn'⟩ := ho.placed k ht
      exact ⟨n, hkeep n k hn'⟩
    · have hp := hk.resolve_right ht
      obtain ⟨⟨n, m⟩, hm⟩ := Option.isSome_iff_exists.mp (Table.mem_iff_getElem?_isSome.mp hp)
      exact ⟨n, (hlook n k).mpr (.inl ⟨m, hm⟩)⟩
  · intro n₁ n₂ k h₁ h₂
    obtain ⟨m₁, hm₁⟩ | ⟨hno₁, hk₁⟩ := (hlook n₁ k).mp h₁
    · obtain ⟨m₂, hm₂⟩ | ⟨hno₂, hk₂⟩ := (hlook n₂ k).mp h₂
      · rw [hm₁] at hm₂
        cases hm₂
        rfl
      · exact ho.once n₁ n₂ k (hold k n₁ m₁ hm₁ (ho.stored n₂ k hk₂)) hk₂
    · obtain ⟨m₂, hm₂⟩ | ⟨hno₂, hk₂⟩ := (hlook n₂ k).mp h₂
      · exact ho.once n₁ n₂ k hk₁ (hold k n₂ m₂ hm₂ (ho.stored n₁ k hk₁))
      · exact ho.once n₁ n₂ k hk₁ hk₂

/-- Every key is a root or has its predecessor before it. -/
def Follows (isRoot : κ → Prop) (pred : κ → κ) (order : Table ℕ κ) : Prop :=
  ∀ (n : ℕ) k, order[n]? = some k → isRoot k ∨ ∃ m < n, order[m]? = some (pred k)

/-- A patch keeps predecessors in front, if its new keys have theirs in the table or before them in the patch. -/
theorem Follows.extend {isRoot : κ → Prop} {pred : κ → κ} (hf : Follows isRoot pred order)
    (ho : Ordered order t start) (hn : Numbered (· ∉ t) p start next)
    (hold : ∀ (k : κ) n m, p[k]? = some (n, m) → k ∈ t → order[n]? = some k)
    (hnew : ∀ (k : κ) n m, p[k]? = some (n, m) → k ∉ t →
      isRoot k ∨ pred k ∈ t ∨ ∃ n' m', p[pred k]? = some (n', m') ∧ n' < n) :
    Follows isRoot pred (extendOrder order p) := by
  have hkeep := ho.keep hn hold
  intro n k hk
  -- an old key stands where it stood
  have hstood : order[n]? = some k → isRoot k ∨ ∃ m < n, (extendOrder order p)[m]? = some (pred k) := by
    intro hk
    refine (hf n k hk).imp id ?_
    rintro ⟨m, hlt, hm⟩
    exact ⟨m, hlt, hkeep m _ hm⟩
  obtain ⟨m, hm⟩ | ⟨_, hk⟩ := (ho.getElem?_extendOrder hn hold n k).mp hk
  · by_cases ht : k ∈ t
    · exact hstood (hold k n m hm ht)
    · have hge := (hn.bound k n m hm ht).1
      obtain hroot | hpred | ⟨n', m', hpred, hlt⟩ := hnew k n m hm ht
      · exact .inl hroot
      · obtain ⟨m', hm'⟩ := ho.placed _ hpred
        have hlt := (ho.range m').mp (Table.mem_of_getElem? hm')
        exact .inr ⟨m', by omega, hkeep m' _ hm'⟩
      · exact .inr ⟨n', hlt, (ho.getElem?_extendOrder hn hold n' _).mpr (.inl ⟨m', hpred⟩)⟩
  · exact hstood hk

end Extend

section Numbers

variable {order order' : Table ℕ κ} {t t' : Table κ ν} {next' : ℕ}

omit [Std.LawfulEqOrd κ] [DecidableEq κ] in
theorem Ordered.size_eq (ho : Ordered order t next) : order.size = next - 1 := by
  have hpos := ho.pos
  have hkeys : order.keys = (List.range (next - 1)).map (· + 1) := by
    refine Table.keys_eq_range fun a => ?_
    rw [ho.range]
    omega
  rw [← Std.ExtTreeMap.length_keys, hkeys]
  simp

omit [Std.LawfulEqOrd κ] [DecidableEq κ] in
theorem Ordered.keys_eq (ho : Ordered order t next) : order.keys = (List.range order.size).map (· + 1) := by
  have hpos := ho.pos
  refine Table.keys_eq_range fun a => ?_
  rw [ho.range, ho.size_eq]
  omega

omit [Std.LawfulEqOrd κ] [DecidableEq κ] in
theorem Ordered.maxKey?_eq (ho : Ordered order t next) :
    order.maxKey? = if next = 1 then none else some (next - 1) := by
  have hpos := ho.pos
  split_ifs with hone
  · rw [Std.ExtTreeMap.maxKey?_eq_none_iff]
    refine Table.ext_getElem? fun n => ?_
    have hout : n ∉ order := by
      rw [ho.range]
      omega
    simp [Table.not_mem_iff_getElem?_eq_none.mp hout]
  · rw [Std.ExtTreeMap.maxKey?_eq_some_iff_mem_and_forall]
    refine ⟨(ho.range _).mpr (by omega), ?_⟩
    intro n hn
    have := (ho.range n).mp hn
    rw [Nat.isLE_compare]
    omega

omit [Std.LawfulEqOrd κ] [DecidableEq κ] in
theorem Follows.split {isRoot : κ → Prop} {pred : κ → κ} (hf : Follows isRoot pred order) (ho : Ordered order t next)
    {pre post : List κ} {k : κ} (h : order.toList.map Prod.snd = pre ++ k :: post) :
    k ∉ pre ∧ (isRoot k ∨ pred k ∈ pre) := by
  obtain ⟨before, rest, hlist, rfl, hrest⟩ := List.map_eq_append_iff.mp h
  obtain ⟨⟨n, k'⟩, after, rfl, rfl, rfl⟩ := List.map_eq_cons_iff.mp hrest
  have hsorted := Std.ExtTreeMap.ordered_keys_toList (t := order)
  rw [hlist, List.pairwise_append] at hsorted
  obtain ⟨_, hafter, hbefore⟩ := hsorted
  have hmem : ∀ e ∈ before ++ (n, k') :: after, order[e.1]? = some e.2 := by
    intro e he
    rw [← hlist] at he
    exact Table.mem_toList.mp he
  have hn : order[n]? = some k' := hmem (n, k') (by simp)
  constructor
  · intro hin
    obtain ⟨⟨m, l⟩, he, heq⟩ := List.mem_map.mp hin
    have hlt := Nat.compare_eq_lt.mp (hbefore _ he (n, k') (by simp))
    have hm : order[m]? = some k' := (hmem (m, l) (by simp [he])).trans (congrArg some heq)
    exact hlt.ne (ho.once m n k' hm hn)
  · refine (hf n k' hn).imp id ?_
    rintro ⟨m, hlt, hm⟩
    have hin : (m, pred k') ∈ before ++ (n, k') :: after := by
      rw [← hlist]
      exact Table.mem_toList.mpr hm
    obtain hin | hin := List.mem_append.mp hin
    · exact List.mem_map.mpr ⟨_, hin, rfl⟩
    · -- the number of the predecessor is smaller, so it does not come after
      obtain heq | hin := List.mem_cons.mp hin
      · have := (Prod.mk.inj heq).1
        omega
      · have := Nat.compare_eq_lt.mp ((List.pairwise_cons.mp hafter).1 _ hin)
        omega

omit [Std.LawfulEqOrd κ] [DecidableEq κ] in
theorem Ordered.map_fst_toList (ho : Ordered order t next) :
    order.toList.map Prod.fst = (List.range order.toList.length).map (· + 1) := by
  rw [Std.ExtTreeMap.length_toList, ← ho.keys_eq, Std.ExtTreeMap.map_fst_toList_eq_keys]

omit [Std.LawfulEqOrd κ] [DecidableEq κ] in
theorem Ordered.getElem_toList (ho : Ordered order t next) {i : ℕ} (hi : i < order.toList.length) :
    ∃ k, order.toList[i] = (i + 1, k) ∧ order[i + 1]? = some k := by
  have hfst : (order.toList[i]).1 = i + 1 := by
    have hnumbers := congrArg (·[i]?) ho.map_fst_toList
    rw [List.getElem?_map, List.getElem?_map, List.getElem?_eq_getElem hi, List.getElem?_range hi] at hnumbers
    exact Option.some.inj hnumbers
  refine ⟨(order.toList[i]).2, Prod.ext hfst rfl, ?_⟩
  rw [← Table.mem_toList, ← hfst]
  exact List.getElem_mem hi

omit [Std.LawfulEqOrd κ] [DecidableEq κ] in
theorem Ordered.prefix_toList (ho : Ordered order t next) (ho' : Ordered order' t' next')
    (hkeep : ∀ (n : ℕ) k, order[n]? = some k → order'[n]? = some k) : order.toList <+: order'.toList := by
  rw [List.prefix_iff_getElem?]
  intro i hi
  obtain ⟨k, hentry, hk⟩ := ho.getElem_toList hi
  have hin := (ho'.range (i + 1)).mp (Table.mem_of_getElem? (hkeep _ _ hk))
  have hi' : i < order'.toList.length := by
    rw [Std.ExtTreeMap.length_toList, ho'.size_eq]
    omega
  obtain ⟨k', hentry', hk'⟩ := ho'.getElem_toList hi'
  rw [hkeep _ _ hk] at hk'
  cases hk'
  rw [List.getElem?_eq_getElem hi', hentry, hentry']

omit [Ord κ] [Std.TransOrd κ] [Std.LawfulEqOrd κ] [DecidableEq κ] in
theorem filter_between {l : List (ℕ × κ)} (h : l.map Prod.fst = (List.range l.length).map (· + 1)) (low high : ℕ) :
    (l.filter fun e => decide (low < e.1) && decide (e.1 ≤ high)) = (l.take high).drop low := by
  induction l using List.reverseRecOn with
  | nil => simp
  | append_singleton l e ih =>
    obtain ⟨n, k⟩ := e
    simp only [List.map_append, List.map_cons, List.map_nil, List.length_append, List.length_cons, List.length_nil,
      Nat.zero_add, List.range_succ] at h
    obtain ⟨hl, hn⟩ := List.append_inj h (by simp)
    obtain rfl : n = l.length + 1 := by simpa using hn
    rw [List.filter_append, ih hl, List.take_append, List.drop_append, List.length_take]
    congr 1
    by_cases hhigh : l.length + 1 ≤ high
    · have htake : high - l.length = (high - l.length - 1) + 1 := by omega
      by_cases hlow : low < l.length + 1
      · have hdrop : low - min high l.length = 0 := by omega
        rw [htake, hdrop]
        simp [hlow, hhigh]
      · have hdrop : low - min high l.length = (low - l.length - 1) + 1 := by omega
        rw [htake, hdrop]
        simp [hlow]
    · have htake : high - l.length = 0 := by omega
      rw [htake]
      simp [hhigh]

end Numbers

/-! ## Reading back -/

section ReadBack

variable {order : Table ℕ κ} {t : Table κ ν} {β ε : Type}

def listed (order : Table ℕ κ) (t : Table κ ν) : List (κ × ℕ × ν) :=
  order.toList.filterMap fun e => t[e.2]?.map fun v => (e.2, e.1, v)

omit [Std.LawfulEqOrd κ] [DecidableEq κ] in
theorem mem_listed {k : κ} {n : ℕ} {v : ν} : (k, n, v) ∈ listed order t ↔ order[n]? = some k ∧ t[k]? = some v := by
  simp only [listed, List.mem_filterMap, Prod.exists, Option.map_eq_some_iff, Prod.mk.injEq, Table.mem_toList]
  constructor
  · rintro ⟨n, k, hn, v, hv, rfl, rfl, rfl⟩
    exact ⟨hn, hv⟩
  · rintro ⟨hn, hv⟩
    exact ⟨n, k, hn, v, hv, rfl, rfl, rfl⟩

omit [Std.LawfulEqOrd κ] [DecidableEq κ] in
theorem Ordered.pairwise_listed (ho : Ordered order t next) :
    (listed order t).Pairwise fun e e' => e.1 ≠ e'.1 ∧ e.2.1 ≠ e'.2.1 := by
  rw [listed, List.pairwise_filterMap]
  refine (Std.ExtTreeMap.ordered_keys_toList (t := order)).imp_of_mem ?_
  rintro ⟨n, k⟩ ⟨n', k'⟩ he he' hlt
  have hne : n ≠ n' := (Nat.compare_eq_lt.mp hlt).ne
  rintro ⟨_, _, _⟩ hb ⟨_, _, _⟩ hb'
  simp only [Option.map_eq_some_iff, Prod.mk.injEq] at hb hb'
  obtain ⟨_, _, rfl, rfl, _⟩ := hb
  obtain ⟨_, _, rfl, rfl, _⟩ := hb'
  refine ⟨?_, hne⟩
  rintro rfl
  exact hne (ho.once n n' k (Table.mem_toList.mp he) (Table.mem_toList.mp he'))

theorem Ordered.foldl_listed_table (ho : Ordered order t next) :
    (listed order t).foldl (fun t e => t.insert e.1 e.2.2) ∅ = t := by
  refine Table.ext_getElem? fun k => ?_
  have hnodup : ((listed order t).map (·.1)).Nodup := List.pairwise_map.mpr (ho.pairwise_listed.imp And.left)
  rw [Table.getElem?_foldl_insert (fun e : κ × ℕ × ν => e.1) (fun e => e.2.2) hnodup]
  cases hf : (listed order t).find? fun e => decide (e.1 = k) with
  | some e =>
    obtain ⟨k', n, v⟩ := e
    obtain rfl : k' = k := by simpa using List.find?_some hf
    simpa using (mem_listed.mp (List.mem_of_find?_eq_some hf)).2.symm
  | none =>
    have hout : k ∉ t := by
      intro hk
      obtain ⟨n, hn⟩ := ho.placed k hk
      obtain ⟨v, hv⟩ := Option.isSome_iff_exists.mp (Table.mem_iff_getElem?_isSome.mp hk)
      have := List.find?_eq_none.mp hf (k, n, v) (mem_listed.mpr ⟨hn, hv⟩)
      simp at this
    simp [Table.not_mem_iff_getElem?_eq_none.mp hout]

omit [Std.LawfulEqOrd κ] [DecidableEq κ] in
theorem Ordered.foldl_listed_order (ho : Ordered order t next) :
    (listed order t).foldl (fun o e => o.insert e.2.1 e.1) ∅ = order := by
  refine Table.ext_getElem? fun n => ?_
  have hnodup : ((listed order t).map (·.2.1)).Nodup := List.pairwise_map.mpr (ho.pairwise_listed.imp And.right)
  rw [Table.getElem?_foldl_insert (fun e : κ × ℕ × ν => e.2.1) (fun e => e.1) hnodup]
  cases hf : (listed order t).find? fun e => decide (e.2.1 = n) with
  | some e =>
    obtain ⟨k, n', v⟩ := e
    obtain rfl : n' = n := by simpa using List.find?_some hf
    simpa using (mem_listed.mp (List.mem_of_find?_eq_some hf)).1.symm
  | none =>
    have hout : n ∉ order := by
      intro hn
      obtain ⟨k, hk⟩ := Option.isSome_iff_exists.mp (Table.mem_iff_getElem?_isSome.mp hn)
      obtain ⟨v, hv⟩ := Option.isSome_iff_exists.mp (Table.mem_iff_getElem?_isSome.mp (ho.stored n k hk))
      have := List.find?_eq_none.mp hf (k, n, v) (mem_listed.mpr ⟨hk, hv⟩)
      simp at this
    simp [Table.not_mem_iff_getElem?_eq_none.mp hout]

omit [DecidableEq κ] in
theorem Ordered.listed_perm (ho : Ordered order t next) :
    ((listed order t).map fun e => (e.1, e.2.2)).Perm t.toList := by
  have hnodup : ((listed order t).map fun e => (e.1, e.2.2)).Nodup :=
    List.pairwise_map.mpr (ho.pairwise_listed.imp fun h heq => h.1 (Prod.mk.inj heq).1)
  rw [List.perm_ext_iff_of_nodup hnodup (Table.nodup_toList t)]
  rintro ⟨k, v⟩
  rw [Table.mem_toList, List.mem_map]
  constructor
  · rintro ⟨⟨k', n, v'⟩, he, heq⟩
    cases heq
    exact (mem_listed.mp he).2
  · intro hv
    obtain ⟨n, hn⟩ := ho.placed k (Table.mem_of_getElem? hv)
    exact ⟨(k, n, v), mem_listed.mpr ⟨hn, hv⟩, rfl⟩

omit [DecidableEq κ] in
theorem foldlM_two_tables {tab : β → Table κ ν} {ord : β → Table ℕ κ} {f : β → κ × ℕ × ν → Except ε β}
    {l : List (κ × ℕ × ν)} (hl : l.Pairwise fun e e' => e.1 ≠ e'.1 ∧ e.2.1 ≠ e'.2.1)
    (hf : ∀ e ∈ l, ∀ acc, e.1 ∉ tab acc → e.2.1 ∉ ord acc →
      ∃ acc', f acc e = .ok acc' ∧ tab acc' = (tab acc).insert e.1 e.2.2 ∧ ord acc' = (ord acc).insert e.2.1 e.1)
    (acc : β) (htab : ∀ e ∈ l, e.1 ∉ tab acc) (hord : ∀ e ∈ l, e.2.1 ∉ ord acc) :
    ∃ acc', l.foldlM f acc = .ok acc' ∧ tab acc' = l.foldl (fun t e => t.insert e.1 e.2.2) (tab acc) ∧
      ord acc' = l.foldl (fun o e => o.insert e.2.1 e.1) (ord acc) := by
  induction l generalizing acc with
  | nil => exact ⟨acc, rfl, rfl, rfl⟩
  | cons e l ih =>
    rw [List.pairwise_cons] at hl
    obtain ⟨acc', hstep, htab', hord'⟩ := hf e (by simp) acc (htab e (by simp)) (hord e (by simp))
    obtain ⟨acc'', hrest, ht, ho⟩ := ih hl.2 (fun e' he' => hf e' (by simp [he'])) acc'
      (fun e' he' => by
        rw [htab', Std.ExtTreeMap.mem_insert, Std.LawfulEqCmp.compare_eq_iff_eq, not_or]
        exact ⟨(hl.1 e' he').1, htab e' (by simp [he'])⟩)
      (fun e' he' => by
        rw [hord', Std.ExtTreeMap.mem_insert, Std.LawfulEqCmp.compare_eq_iff_eq, not_or]
        exact ⟨(hl.1 e' he').2, hord e' (by simp [he'])⟩)
    refine ⟨acc'', ?_, by rw [ht, htab', List.foldl_cons], by rw [ho, hord', List.foldl_cons]⟩
    rw [List.foldlM_cons, hstep]
    exact hrest

/-- **Round trip of an ordered table**: reading its entries back gives both tables. -/
theorem Ordered.read_back (ho : Ordered order t next) (tab : β → Table κ ν) (ord : β → Table ℕ κ)
    {f : β → κ × ℕ × ν → Except ε β} {a : β} (htab : tab a = ∅) (hord : ord a = ∅)
    (hf : ∀ e ∈ listed order t, ∀ acc, e.1 ∉ tab acc → e.2.1 ∉ ord acc →
      ∃ acc', f acc e = .ok acc' ∧ tab acc' = (tab acc).insert e.1 e.2.2 ∧ ord acc' = (ord acc).insert e.2.1 e.1) :
    ∃ acc', (listed order t).foldlM f a = .ok acc' ∧ tab acc' = t ∧ ord acc' = order := by
  obtain ⟨acc', hacc, ht, hno⟩ := foldlM_two_tables ho.pairwise_listed hf a (by simp [htab]) (by simp [hord])
  exact ⟨acc', hacc, by rw [ht, htab, ho.foldl_listed_table], by rw [hno, hord, ho.foldl_listed_order]⟩

end ReadBack

end AnimaCore.Lib
