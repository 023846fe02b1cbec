import AnimaCore.AnimaMemory.Citations
import AnimaCore.Lib.TopK

/-!
# AnimaCore.AnimaMemory.ContextSelection — the memories of a prompt

`select_context`, without a vector index: the memories that share words with the query, the best one of each content, and of
these the first few.

* The memories come in the order of `values`, in which the map yields them.
* `Alphabet` has the Unicode tables.
-/

namespace AnimaCore.AnimaMemory

open Lib

/-- `char::is_alphanumeric`, `str::to_lowercase` and `char::to_lowercase`. -/
structure Alphabet where
  isAlphanumeric : Char → Bool
  toLowercase : List Char → List Char
  charToLowercase : Char → List Char

structure MemoryContextOptions where
  agentId : String
  roomId : Option String
  query : String
  limit : ℕ
  deriving DecidableEq, Repr

def stopWords : List String :=
  ["a", "an", "and", "are", "as", "at", "be", "can", "could", "do", "does", "for", "from", "how", "i", "in", "is", "it", "me", "my",
    "of", "on", "or", "please", "tell", "that", "the", "this", "to", "was", "what", "when", "where", "which", "who", "why", "will",
    "with", "would", "you", "your"]

section

variable (A : Alphabet)

/-- `split(|character| !character.is_alphanumeric())`, each part in lower case. -/
def splitTerms (text : List Char) : List String :=
  (text.splitOnP fun c => !A.isAlphanumeric c).map fun term => String.ofList (A.toLowercase term)

/-- The loop of `context_query_terms`. -/
def addTerms : List String → Finset String → Finset String
  | [], terms => terms
  | term :: rest, terms =>
    if term ≠ "" ∧ term ∉ stopWords then
      if (insert term terms).card = 32 then insert term terms else addTerms rest (insert term terms)
    else addTerms rest terms

def contextQueryTerms (query : String) : Finset String := addTerms (splitTerms A (query.toList.take 512)) ∅

/-- The loop of `context_term_overlap`. -/
def overlapFrom (queryTerms : Finset String) : List String → Finset String → ℕ
  | [], found => found.card
  | term :: rest, found =>
    if term ∈ queryTerms then
      if (insert term found).card = queryTerms.card then (insert term found).card
      else overlapFrom queryTerms rest (insert term found)
    else overlapFrom queryTerms rest found

def contextTermOverlap (content : String) (queryTerms : Finset String) : ℕ :=
  overlapFrom queryTerms (splitTerms A content.toList) ∅

def normalizedContextContent (content : String) : List Char :=
  ((content.toList.splitOnP isWhitespace).filter fun word => !word.isEmpty).flatMap fun word =>
    word.flatMap A.charToLowercase ++ [' ']

variable {F : Type} (S : Setting F)

def compareContextCandidates (left right : Memory F × ℕ) : Ordering :=
  (compare right.2 left.2).then ((S.totalCmp right.1.importance left.1.importance).then
    ((compare right.1.createdAt left.1.createdAt).then (compare left.1.id right.1.id)))

/-- The closure `eligible`. -/
def eligibleForContext (opts : MemoryContextOptions) (visible : Memory F → Bool) (memory : Memory F) : Bool :=
  memory.agentId == opts.agentId && (memory.memoryType == .fact || memory.memoryType == .reflection) &&
    memory.worldId.isNone && memory.sessionId.isNone &&
    (memory.scope != .room || opts.roomId.any fun room => room != "" && memory.roomId == some room) && visible memory

/-- The body of the loop of `select_context`. -/
def offerMemory (opts : MemoryContextOptions) (visible : Memory F → Bool) (terms : Finset String)
    (selected : List (Memory F × ℕ)) (memory : Memory F) : List (Memory F × ℕ) :=
  if eligibleForContext opts visible memory then
    if contextTermOverlap A memory.content terms = 0 then selected
    else
      offer (compareContextCandidates S) (fun candidate => normalizedContextContent A candidate.1.content) opts.limit selected
        (memory, contextTermOverlap A memory.content terms)
  else selected

def selectContext (values : List (Memory F)) (opts : MemoryContextOptions) (visible : Memory F → Bool) : List (Memory F) :=
  if opts.limit = 0 then []
  else if contextQueryTerms A opts.query = ∅ then []
  else (values.foldl (offerMemory A S opts visible (contextQueryTerms A opts.query)) []).map Prod.fst

/-- The eligible memories that share a word with the query. -/
def contextCandidates (values : List (Memory F)) (opts : MemoryContextOptions) (visible : Memory F → Bool) :
    List (Memory F × ℕ) :=
  let overlap := fun memory : Memory F => contextTermOverlap A memory.content (contextQueryTerms A opts.query)
  (values.filter fun memory => eligibleForContext opts visible memory && overlap memory != 0).map fun memory =>
    (memory, overlap memory)

end

/-! ## The selection -/

variable {A : Alphabet} {F : Type} {S : Setting F} {values : List (Memory F)} {opts : MemoryContextOptions}
  {visible : Memory F → Bool}

theorem transCmp_compareContextCandidates (h : Std.TransCmp S.totalCmp) : Std.TransCmp (compareContextCandidates S) :=
  inferInstanceAs (Std.TransCmp (compareLex (fun a b : Memory F × ℕ => compare b.2 a.2)
    (compareLex (fun a b => S.totalCmp b.1.importance a.1.importance)
      (compareLex (fun a b => compare b.1.createdAt a.1.createdAt) fun a b => compare a.1.id b.1.id))))

theorem id_eq_of_compareContextCandidates {left right : Memory F × ℕ} (h : compareContextCandidates S left right = .eq) :
    left.1.id = right.1.id := by
  unfold compareContextCandidates at h
  rw [Ordering.then_eq_eq, Ordering.then_eq_eq, Ordering.then_eq_eq] at h
  exact Std.LawfulEqCmp.compare_eq_iff_eq.mp h.2.2.2

theorem foldl_offerMemory (selected : List (Memory F × ℕ)) :
    values.foldl (offerMemory A S opts visible (contextQueryTerms A opts.query)) selected =
      (contextCandidates A values opts visible).foldl (offer (compareContextCandidates S)
        (fun candidate => normalizedContextContent A candidate.1.content) opts.limit) selected := by
  induction values generalizing selected with
  | nil => rfl
  | cons memory values ih =>
    rw [List.foldl_cons, ih]
    unfold offerMemory contextCandidates
    dsimp only
    by_cases heligible : eligibleForContext opts visible memory = true
    · by_cases hoverlap : contextTermOverlap A memory.content (contextQueryTerms A opts.query) = 0
      · rw [if_pos heligible, if_pos hoverlap, List.filter_cons_of_neg (by simp [hoverlap])]
      · rw [if_pos heligible, if_neg hoverlap, List.filter_cons_of_pos (by simp [heligible, hoverlap]), List.map_cons,
          List.foldl_cons]
    · rw [if_neg heligible, List.filter_cons_of_neg (by simp [heligible])]

theorem overlapFrom_empty (terms : List String) : overlapFrom ∅ terms ∅ = 0 := by
  induction terms with
  | nil => rfl
  | cons term terms ih =>
    unfold overlapFrom
    rw [if_neg (Finset.notMem_empty term), ih]

theorem mem_contextCandidates {candidate : Memory F × ℕ} : candidate ∈ contextCandidates A values opts visible ↔
    ∃ memory ∈ values, eligibleForContext opts visible memory = true ∧
      contextTermOverlap A memory.content (contextQueryTerms A opts.query) ≠ 0 ∧
      candidate = (memory, contextTermOverlap A memory.content (contextQueryTerms A opts.query)) := by
  unfold contextCandidates
  dsimp only
  rw [List.mem_map]
  constructor
  · rintro ⟨memory, hmem, rfl⟩
    obtain ⟨hvalue, heligible⟩ := List.mem_filter.mp hmem
    rw [Bool.and_eq_true, bne_iff_ne] at heligible
    exact ⟨memory, hvalue, heligible.1, heligible.2, rfl⟩
  · rintro ⟨memory, hvalue, heligible, hoverlap, rfl⟩
    refine ⟨memory, List.mem_filter.mpr ⟨hvalue, ?_⟩, rfl⟩
    rw [Bool.and_eq_true, bne_iff_ne]
    exact ⟨heligible, hoverlap⟩

theorem distinct_candidates (hids : (values.map fun memory => memory.id).Nodup) :
    (contextCandidates A values opts visible).Nodup ∧ ∀ x ∈ contextCandidates A values opts visible,
      ∀ y ∈ contextCandidates A values opts visible, compareContextCandidates S x y = .eq → x = y := by
  constructor
  · unfold contextCandidates
    refine List.Nodup.map (fun x y hxy => (Prod.mk.inj hxy).1) (List.Nodup.filter _ ?_)
    exact List.Nodup.of_map _ hids
  · intro x hx y hy hcmp
    obtain ⟨left, hleft, _, _, rfl⟩ := mem_contextCandidates.mp hx
    obtain ⟨right, hright, _, _, rfl⟩ := mem_contextCandidates.mp hy
    have hsame : left = right := List.inj_on_of_nodup_map hids hleft hright (id_eq_of_compareContextCandidates hcmp)
    rw [hsame]

theorem contextCandidates_nil (h : contextQueryTerms A opts.query = ∅) : contextCandidates A values opts visible = [] := by
  refine List.eq_nil_iff_forall_not_mem.mpr fun candidate hmem => ?_
  obtain ⟨memory, _, _, hoverlap, _⟩ := mem_contextCandidates.mp hmem
  rw [h] at hoverlap
  exact hoverlap (overlapFrom_empty _)

/-- **The memories of a prompt are the first of the best of each content**, in every order in which the map is read. -/
theorem select_context_exact (A : Alphabet) (S : Setting F) (htotal : Std.TransCmp S.totalCmp) (values : List (Memory F))
    (hids : (values.map fun memory => memory.id).Nodup) (opts : MemoryContextOptions) (visible : Memory F → Bool) :
    selectContext A S values opts visible =
        (((bests (compareContextCandidates S) (fun candidate => normalizedContextContent A candidate.1.content)
          (contextCandidates A values opts visible)).mergeSort fun a b => (compareContextCandidates S a b).isLE).take
            opts.limit).map Prod.fst ∧
      ∀ values', values'.Perm values → selectContext A S values' opts visible = selectContext A S values opts visible := by
  have htrans := transCmp_compareContextCandidates htotal
  have hexact : ∀ values : List (Memory F), (values.map fun memory => memory.id).Nodup →
      selectContext A S values opts visible =
        (((bests (compareContextCandidates S) (fun candidate => normalizedContextContent A candidate.1.content)
          (contextCandidates A values opts visible)).mergeSort fun a b => (compareContextCandidates S a b).isLE).take
            opts.limit).map Prod.fst := by
    intro values hids
    obtain ⟨hnd, heq⟩ := @distinct_candidates A F S values opts visible hids
    unfold selectContext
    by_cases hlimit : opts.limit = 0
    · rw [if_pos hlimit, hlimit, List.take_zero, List.map_nil]
    · rw [if_neg hlimit]
      by_cases hterms : contextQueryTerms A opts.query = ∅
      · rw [if_pos hterms, contextCandidates_nil hterms]
        simp [bests]
      · rw [if_neg hterms, foldl_offerMemory, offered_eq hnd heq]
  refine ⟨hexact values hids, fun values' hperm => ?_⟩
  have hids' : (values'.map fun memory => memory.id).Nodup := (hperm.map _).nodup_iff.mpr hids
  rw [hexact values hids, hexact values' hids']
  -- the best of the one order are the best of the other
  have hsorted : ∀ values : List (Memory F), (values.map fun memory => memory.id).Nodup →
      ((bests (compareContextCandidates S) (fun candidate => normalizedContextContent A candidate.1.content)
        (contextCandidates A values opts visible)).mergeSort fun a b => (compareContextCandidates S a b).isLE).Pairwise
          fun a b => (compareContextCandidates S a b).isLT = true := by
    intro values hids
    obtain ⟨hnd, heq⟩ := @distinct_candidates A F S values opts visible hids
    refine sorted_mergeSort (hnd.filter _) fun x hx y hy => heq x (List.mem_of_mem_filter hx) y (List.mem_of_mem_filter hy)
  have hmem : ∀ candidate, candidate ∈ contextCandidates A values' opts visible ↔
      candidate ∈ contextCandidates A values opts visible := by
    intro candidate
    rw [mem_contextCandidates, mem_contextCandidates]
    simp only [hperm.mem_iff]
  congr 2
  refine eq_of_sorted (hsorted values' hids') (hsorted values hids) fun candidate => ?_
  rw [(List.mergeSort_perm _ _).mem_iff, (List.mergeSort_perm _ _).mem_iff, mem_bests, mem_bests, hmem]
  simp only [hmem]

/-! ## Two memories of one content -/

namespace Sample

/-- ASCII letters, and importances as whole numbers. -/
def ascii : Alphabet where
  isAlphanumeric := Char.isAlphanum
  toLowercase := fun text => text.map Char.toLower
  charToLowercase := fun c => [c.toLower]

def wholeImportance : Setting ℕ where
  inUnit := fun _ => true
  same := fun a b => a == b
  less := fun a b => decide (a < b)
  larger := max
  totalCmp := compare
  zero := 0
  duplicateScore := 0
  decayed := fun importance _ _ => importance
  score := fun importance _ _ _ => importance
  capped := id
  tokenize := fun text => [text]

def fact (id content : String) (importance : ℕ) : Memory ℕ where
  id := id
  agentId := "a"
  agentName := "A"
  memoryType := .fact
  content := content
  importance := importance
  createdAt := 1
  tags := none
  scope := .shared
  roomId := none
  worldId := none
  sessionId := none

/-- Of two memories of one content the more important one is selected. -/
theorem select_context_exact_duplicate :
    (selectContext ascii wholeImportance [fact "m1" "Tea time" 1, fact "m2" "tea  TIME" 2]
      { agentId := "a", roomId := none, query := "the tea", limit := 2 } fun _ => true).map (·.id) = ["m2"] ∧
    ∀ values', values'.Perm [fact "m1" "Tea time" 1, fact "m2" "tea  TIME" 2] →
      (selectContext ascii wholeImportance values'
        { agentId := "a", roomId := none, query := "the tea", limit := 2 } fun _ => true).map (·.id) = ["m2"] := by
  have hrun : (selectContext ascii wholeImportance [fact "m1" "Tea time" 1, fact "m2" "tea  TIME" 2]
      { agentId := "a", roomId := none, query := "the tea", limit := 2 } fun _ => true).map (·.id) = ["m2"] := by
    decide +kernel
  have hexact := select_context_exact ascii wholeImportance (inferInstanceAs (Std.TransCmp (compare : ℕ → ℕ → Ordering)))
    [fact "m1" "Tea time" 1, fact "m2" "tea  TIME" 2] (by decide)
    { agentId := "a", roomId := none, query := "the tea", limit := 2 } fun _ => true
  refine ⟨hrun, fun values' hperm => ?_⟩
  rw [hexact.2 values' hperm, hrun]

end Sample

end AnimaCore.AnimaMemory
