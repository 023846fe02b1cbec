import AnimaCore.AnimaMemory.Effects
import AnimaCore.Approvals.Wildcards
import AnimaCore.Lib.Split

/-!
# AnimaCore.Approvals.Normalized — what a matcher means before and after it is saved

A matcher is trimmed and put in a normal form before it is saved.  The normal form is valid and stays as it is, and it
covers the calls that the matcher covers.  The exception are command prefixes with odd white space around them, which
cover nothing before it is trimmed away.
-/

namespace AnimaCore.Approvals

open Lib ShellLex AnimaMemory

/-! ## Trimmed texts -/

theorem trim_eq_self_iff {value : String} : trim value = value ↔
    (∀ c ∈ value.toList.head?, isWhitespace c = false) ∧ ∀ c ∈ value.toList.getLast?, isWhitespace c = false := by
  rw [← String.toList_inj, trim_toList]
  generalize value.toList = text
  constructor
  · intro h
    have hfront : text.dropWhile isWhitespace = text := by
      have hle := (List.rdropWhile_prefix isWhitespace (l := text.dropWhile isWhitespace)).length_le
      rw [h] at hle
      exact (List.dropWhile_suffix isWhitespace).eq_of_length_le hle
    rw [hfront] at h
    constructor
    · intro c hc
      rcases text with _ | ⟨d, text⟩
      · cases hc
      · cases hc
        by_contra hws
        rw [Bool.not_eq_false] at hws
        rw [List.dropWhile_cons_of_pos hws] at hfront
        have hlength := congrArg List.length hfront
        have hle := (List.dropWhile_suffix (l := text) isWhitespace).length_le
        rw [List.length_cons] at hlength
        omega
    · intro c hc
      obtain ⟨hne, rfl⟩ := List.mem_getLast?_eq_getLast hc
      simpa using List.rdropWhile_eq_self_iff.mp h hne
  · rintro ⟨hhead, hlast⟩
    have hfront : text.dropWhile isWhitespace = text := by
      rcases text with _ | ⟨c, text⟩
      · rfl
      · rw [List.dropWhile_cons_of_neg]
        rw [hhead c rfl]
        exact Bool.false_ne_true
    rw [hfront, List.rdropWhile_eq_self_iff]
    intro hne
    rw [hlast _ (List.getLast_mem_getLast? hne)]
    exact Bool.false_ne_true

theorem exists_trim (value : String) : ∃ front back, value.toList = front ++ (trim value).toList ++ back ∧
    (∀ c ∈ front, isWhitespace c = true) ∧ ∀ c ∈ back, isWhitespace c = true := by
  rw [trim_toList]
  refine ⟨value.toList.takeWhile isWhitespace, (value.toList.dropWhile isWhitespace).rtakeWhile isWhitespace, ?_, ?_, ?_⟩
  · rw [List.append_assoc, List.rdropWhile_append_rtakeWhile, List.takeWhile_append_dropWhile]
  · intro c hc
    exact List.mem_takeWhile_imp hc
  · intro c hc
    exact List.mem_rtakeWhile_imp hc

theorem trim_of_no_whitespace {value : String} (h : ∀ c ∈ value.toList, isWhitespace c = false) : trim value = value := by
  rw [trim_eq_self_iff]
  exact ⟨fun c hc => h c (List.mem_of_mem_head? hc), fun c hc => h c (List.mem_of_mem_getLast? hc)⟩

/-! ## Words -/

variable {text : Text}

theorem hasOddWhitespace_eq_false : hasOddWhitespace text = false ↔
    ∀ c ∈ text, isBlank c = true ∨ (isWhitespace c = false ∧ isControl c = false) := by
  unfold hasOddWhitespace isBlank
  rw [List.any_eq_false]
  refine forall₂_congr fun c _ => ?_
  simp only [Bool.and_eq_true, Bool.or_eq_true, bne_iff_ne, beq_iff_eq, ne_eq, not_and, not_or, Bool.not_eq_true]
  tauto

theorem mem_shellWords {word : Text} (h : word ∈ shellWords text) :
    word ≠ [] ∧ ∀ c ∈ word, c ∈ text ∧ isBlank c = false := by
  unfold shellWords at h
  obtain ⟨hmem, hne⟩ := List.mem_filter.mp h
  exact ⟨by simpa using hne, fun c hc => mem_of_mem_splitOnP hmem hc⟩

theorem shellWords_of_blanks (h : ∀ c ∈ text, isBlank c = true) : shellWords text = [] := by
  induction text with
  | nil => exact shellWords_nil
  | cons c text ih =>
    obtain ⟨hc, h⟩ := List.forall_mem_cons.mp h
    have hblank := shellWords_blank hc [] text
    rw [List.nil_append, shellWords_nil, List.nil_append] at hblank
    rw [hblank, ih h]

theorem shellWords_between {front back : Text} (hfront : ∀ c ∈ front, isBlank c = true)
    (hback : ∀ c ∈ back, isBlank c = true) : shellWords (front ++ text ++ back) = shellWords text := by
  have hright : shellWords (text ++ back) = shellWords text := by
    rcases back with _ | ⟨c, back⟩
    · rw [List.append_nil]
    · obtain ⟨hc, hback⟩ := List.forall_mem_cons.mp hback
      rw [shellWords_blank hc, shellWords_of_blanks hback, List.append_nil]
  rw [List.append_assoc]
  induction front with
  | nil => exact hright
  | cons c front ih =>
    obtain ⟨hc, hfront⟩ := List.forall_mem_cons.mp hfront
    have hblank := shellWords_blank hc [] (front ++ (text ++ back))
    rw [List.nil_append, shellWords_nil, List.nil_append] at hblank
    rw [List.cons_append, hblank, ih hfront]

theorem shellWords_intercalate {words : List Text} (h : ∀ word ∈ words, word ≠ [] ∧ ∀ c ∈ word, isBlank c = false) :
    shellWords ([' '].intercalate words) = words := by
  rcases words with _ | ⟨word, words⟩
  · exact shellWords_nil
  unfold shellWords
  rw [splitOnP_intercalate (by decide) (by simp) fun x hx => (h x hx).2, List.filter_eq_self]
  intro x hx
  simpa using (h x hx).1

/-! ## Command prefixes -/

theorem prefixWordsArePlain_iff : prefixWordsArePlain text = true ↔
    NoOperators text ∧ hasOddWhitespace text = false ∧ ∀ word ∈ shellWords text, ∀ c ∈ word, c ∉ shellWordSpecials := by
  unfold prefixWordsArePlain NoOperators
  simp only [Bool.and_eq_true, Bool.not_eq_true', List.any_eq_false, List.all_eq_true, List.contains_iff_mem, and_assoc]

theorem commandHasPrefix_congr {command start start' : Text}
    (hplain : prefixWordsArePlain start = prefixWordsArePlain start') (hwords : shellWords start = shellWords start') :
    commandHasPrefix command start = commandHasPrefix command start' := by
  unfold commandHasPrefix
  rw [hplain, hwords]

theorem isBlank_of_isWhitespace {c : Char} (hodd : hasOddWhitespace text = false) (hmem : c ∈ text)
    (hc : isWhitespace c = true) : isBlank c = true := by
  rcases hasOddWhitespace_eq_false.mp hodd c hmem with hblank | ⟨hws, -⟩
  · exact hblank
  · rw [hws] at hc
    cases hc

theorem not_operator_of_isBlank {c : Char} (hc : isBlank c = true) : c ∉ shellOperators := by
  simp only [isBlank, Bool.or_eq_true, beq_iff_eq] at hc
  rcases hc with rfl | rfl <;> decide

theorem prefix_trim {value : String} (hodd : hasOddWhitespace value.toList = false) :
    prefixWordsArePlain (trim value).toList = prefixWordsArePlain value.toList ∧
      shellWords (trim value).toList = shellWords value.toList := by
  obtain ⟨front, back, hsplit, hfront, hback⟩ := exists_trim value
  have hfrontBlank : ∀ c ∈ front, isBlank c = true := fun c hc =>
    isBlank_of_isWhitespace hodd (hsplit ▸ List.mem_append_left _ (List.mem_append_left _ hc)) (hfront c hc)
  have hbackBlank : ∀ c ∈ back, isBlank c = true := fun c hc =>
    isBlank_of_isWhitespace hodd (hsplit ▸ List.mem_append_right _ hc) (hback c hc)
  have hwords : shellWords (trim value).toList = shellWords value.toList := by
    rw [hsplit, shellWords_between hfrontBlank hbackBlank]
  have hinside : ∀ c ∈ (trim value).toList, c ∈ value.toList := fun c hc =>
    hsplit ▸ List.mem_append_left _ (List.mem_append_right _ hc)
  refine ⟨?_, hwords⟩
  rw [Bool.eq_iff_iff, prefixWordsArePlain_iff, prefixWordsArePlain_iff, hwords]
  constructor
  · rintro ⟨hoperators, -, hspecials⟩
    refine ⟨?_, hodd, hspecials⟩
    intro c hc
    rw [hsplit, List.mem_append, List.mem_append] at hc
    rcases hc with (hc | hc) | hc
    · exact not_operator_of_isBlank (hfrontBlank c hc)
    · exact hoperators c hc
    · exact not_operator_of_isBlank (hbackBlank c hc)
  · rintro ⟨hoperators, -, hspecials⟩
    refine ⟨fun c hc => hoperators c (hinside c hc), ?_, hspecials⟩
    rw [hasOddWhitespace_eq_false] at hodd ⊢
    exact fun c hc => hodd c (hinside c hc)

/-- The words of a prefix, joined by single spaces. -/
def joinWords (text : Text) : Text := [' '].intercalate (shellWords text)

theorem shellWords_joinWords : shellWords (joinWords text) = shellWords text :=
  shellWords_intercalate fun _ hword => ⟨(mem_shellWords hword).1, fun c hc => ((mem_shellWords hword).2 c hc).2⟩

theorem mem_joinWords {c : Char} (h : c ∈ joinWords text) : c = ' ' ∨ (c ∈ text ∧ isBlank c = false) := by
  rcases mem_intercalate h with h | ⟨word, hword, h⟩
  · exact .inl (List.mem_singleton.mp h)
  · exact .inr ((mem_shellWords hword).2 c h)

theorem prefixWordsArePlain_joinWords (h : prefixWordsArePlain text = true) :
    prefixWordsArePlain (joinWords text) = true := by
  rw [prefixWordsArePlain_iff] at h ⊢
  obtain ⟨hoperators, hodd, hspecials⟩ := h
  rw [shellWords_joinWords]
  refine ⟨?_, ?_, hspecials⟩
  · intro c hc
    rcases mem_joinWords hc with rfl | ⟨hmem, -⟩
    · decide
    · exact hoperators c hmem
  · rw [hasOddWhitespace_eq_false] at hodd ⊢
    intro c hc
    rcases mem_joinWords hc with rfl | ⟨hmem, -⟩
    · exact .inl (by decide)
    · exact hodd c hmem

theorem length_joinWords_le : (joinWords text).length ≤ text.length := length_intercalate_filter_le ' ' text

theorem trim_joinWords (hodd : hasOddWhitespace text = false) :
    trim (String.ofList (joinWords text)) = String.ofList (joinWords text) := by
  have hplain : ∀ word ∈ shellWords text, ∀ c ∈ word, isWhitespace c = false := by
    intro word hword c hc
    obtain ⟨hmem, hblank⟩ := (mem_shellWords hword).2 c hc
    by_contra hws
    rw [Bool.not_eq_false] at hws
    rw [isBlank_of_isWhitespace hodd hmem hws] at hblank
    cases hblank
  rw [trim_eq_self_iff, String.toList_ofList]
  unfold joinWords
  rcases hwords : shellWords text with _ | ⟨word, words⟩
  · exact ⟨fun c hc => absurd hc (by simp), fun c hc => absurd hc (by simp)⟩
  constructor
  · intro c hc
    have hword : word ∈ shellWords text := hwords ▸ List.mem_cons_self
    rw [head?_intercalate (mem_shellWords hword).1] at hc
    exact hplain word hword c (List.mem_of_mem_head? hc)
  · intro c hc
    obtain ⟨last, hlast⟩ : ∃ last, (word :: words).getLast? = some last := ⟨_, List.getLast?_eq_some_getLast (by simp)⟩
    have hmem : last ∈ shellWords text := hwords ▸ List.mem_of_getLast? hlast
    rw [getLast?_intercalate hlast (mem_shellWords hmem).1] at hc
    exact hplain last hmem c (List.mem_of_mem_getLast? hc)

/-! ## Paths -/

structure Component (name : String) : Prop where
  ne_empty : name ≠ ""
  ne_dot : name ≠ "."
  ne_dots : name ≠ ".."
  colon : ':' ∉ name.toList
  trimmed : trim name = name
  separator : ∀ c ∈ name.toList, isPathSeparator c = false

/-- One turn of the loop of `relative_components`. -/
def relativeStep (components : List String) (component : Text) : Option (List String) :=
  if component = [] ∨ component = ['.'] then some components
  else if component = ['.', '.'] then none
  else if ':' ∈ component ∨ String.ofList component ≠ trim (String.ofList component) then none
  else some (components ++ [String.ofList component])

theorem relativeComponents_eq (path : String) : relativeComponents path =
    if (trim path).toList.head?.any isPathSeparator then none
    else ((trim path).toList.splitOnP isPathSeparator).foldlM relativeStep [] >>= fun components =>
      if components = [] then none else some components := rfl

theorem relativeComponents_trim (path : String) : relativeComponents (trim path) = relativeComponents path := by
  rw [relativeComponents_eq, relativeComponents_eq, trim_trim]

theorem Component.of_relativeStep {components components' : List String} {component : Text}
    (hsep : ∀ c ∈ component, isPathSeparator c = false) (hall : ∀ name ∈ components, Component name)
    (h : relativeStep components component = some components') : ∀ name ∈ components', Component name := by
  unfold relativeStep at h
  split_ifs at h with hempty hdots hodd
  · cases h
    exact hall
  · cases h
    rw [not_or] at hempty hodd
    intro name hname
    rcases List.mem_append.mp hname with hname | hname
    · exact hall name hname
    · obtain rfl := List.mem_singleton.mp hname
      refine ⟨?_, ?_, ?_, ?_, (not_not.mp hodd.2).symm, ?_⟩
      · intro heq
        exact hempty.1 (by simpa using congrArg String.toList heq)
      · intro heq
        exact hempty.2 (by simpa using congrArg String.toList heq)
      · intro heq
        exact hdots (by simpa using congrArg String.toList heq)
      · rw [String.toList_ofList]
        exact hodd.1
      · rw [String.toList_ofList]
        exact hsep

theorem component_of_relativeComponents {path : String} {components : List String}
    (h : relativeComponents path = some components) : components ≠ [] ∧ ∀ name ∈ components, Component name := by
  rw [relativeComponents_eq] at h
  split_ifs at h with hhead
  obtain ⟨found, hfound, h⟩ := Option.bind_eq_some_iff.mp h
  split_ifs at h with hempty
  cases h
  refine ⟨hempty, ?_⟩
  have hpieces : ∀ piece ∈ (trim path).toList.splitOnP isPathSeparator, ∀ c ∈ piece, isPathSeparator c = false :=
    fun piece hpiece c hc => (mem_of_mem_splitOnP hpiece hc).2
  generalize (trim path).toList.splitOnP isPathSeparator = pieces at hfound hpieces
  have hnone : ∀ name ∈ ([] : List String), Component name := fun _ hname => absurd hname List.not_mem_nil
  generalize ([] : List String) = start at hfound hnone
  induction pieces generalizing start with
  | nil =>
    cases hfound
    exact hnone
  | cons piece pieces ih =>
    rw [List.foldlM_cons] at hfound
    obtain ⟨next, hnext, hfound⟩ := Option.bind_eq_some_iff.mp hfound
    obtain ⟨hpiece, hpieces⟩ := List.forall_mem_cons.mp hpieces
    exact ih hpieces next hfound (Component.of_relativeStep hpiece hnone hnext)

theorem Component.relativeStep {name : String} (h : Component name) (components : List String) :
    relativeStep components name.toList = some (components ++ [name]) := by
  have hempty : ¬ (name.toList = [] ∨ name.toList = ['.']) := by
    rintro (heq | heq)
    · exact h.ne_empty (String.toList_inj.mp heq)
    · exact h.ne_dot (String.toList_inj.mp heq)
  have hdots : name.toList ≠ ['.', '.'] := fun heq => h.ne_dots (String.toList_inj.mp heq)
  unfold AnimaCore.Approvals.relativeStep
  rw [if_neg hempty, if_neg hdots, String.ofList_toList, if_neg]
  rintro (hcolon | htrim)
  · exact h.colon hcolon
  · exact htrim h.trimmed.symm

theorem relativeComponents_join {names : List String} (hne : names ≠ []) (h : ∀ name ∈ names, Component name) :
    relativeComponents ("/".intercalate names) = some names := by
  have hlist : ("/".intercalate names).toList = ['/'].intercalate (names.map String.toList) := String.toList_intercalate
  have hpieces : ∀ piece ∈ names.map String.toList, ∀ c ∈ piece, isPathSeparator c = false := by
    intro piece hpiece
    obtain ⟨name, hname, rfl⟩ := List.mem_map.mp hpiece
    exact (h name hname).separator
  obtain ⟨first, rest, rfl⟩ := List.exists_cons_of_ne_nil hne
  have hfirst := h first List.mem_cons_self
  have hhead : ("/".intercalate (first :: rest)).toList.head? = first.toList.head? := by
    rw [hlist, List.map_cons, head?_intercalate]
    exact fun heq => hfirst.ne_empty (String.toList_inj.mp heq)
  have htrim : trim ("/".intercalate (first :: rest)) = "/".intercalate (first :: rest) := by
    rw [trim_eq_self_iff, hhead]
    refine ⟨(trim_eq_self_iff.mp hfirst.trimmed).1, ?_⟩
    obtain ⟨last, hlast⟩ : ∃ last, (first :: rest).getLast? = some last := ⟨_, List.getLast?_eq_some_getLast (by simp)⟩
    have hcomponent := h last (List.mem_of_getLast? hlast)
    have hmap : ((first :: rest).map String.toList).getLast? = some last.toList := by
      rw [List.getLast?_map, hlast]
      rfl
    rw [hlist, getLast?_intercalate hmap fun heq => hcomponent.ne_empty (String.toList_inj.mp heq)]
    exact (trim_eq_self_iff.mp hcomponent.trimmed).2
  rw [relativeComponents_eq, htrim, hhead, if_neg]
  · rw [hlist, splitOnP_intercalate (by decide) (by simp) hpieces]
    have hfold : ∀ (names acc : List String), (∀ name ∈ names, Component name) →
        (names.map String.toList).foldlM relativeStep acc = some (acc ++ names) := by
      intro names
      induction names with
      | nil =>
        intro acc _
        rw [List.append_nil]
        rfl
      | cons name names ih =>
        intro acc hall
        obtain ⟨hname, hall⟩ := List.forall_mem_cons.mp hall
        rw [List.map_cons, List.foldlM_cons, hname.relativeStep]
        show List.foldlM relativeStep (acc ++ [name]) (names.map String.toList) = _
        rw [ih _ hall, List.append_assoc, List.singleton_append]
    rw [hfold _ _ h]
    rfl
  · rcases hchars : first.toList with _ | ⟨c, chars⟩
    · simp
    · have hc := hfirst.separator c (hchars ▸ List.mem_cons_self)
      simp [hc]

/-! ## Domains -/

/-- What stays of a domain: lower case, and no dots at its end. -/
def domainOf (value : Text) : Text := asciiLowercase (trimEndDots value)

theorem trimEndDots_eq (value : Text) : trimEndDots value = value.rdropWhile (· == '.') := rfl

theorem toLower_eq_iff {c d : Char} (hd : d.isAlpha = false) : c.toLower = d ↔ c = d := by
  by_cases hc : c.isUpper = true
  · have halpha : c.isAlpha = true := by simp [Char.isAlpha, hc]
    constructor
    · intro heq
      have hlower := Char.isAlpha_toLower_eq_isAlpha c
      rw [heq, hd, halpha] at hlower
      cases hlower
    · intro heq
      rw [heq, hd] at halpha
      cases halpha
  · rw [Char.toLower_eq_of_not_isUpper hc]

theorem toLower_isDot (c : Char) : (c.toLower == '.') = (c == '.') := by
  rw [Bool.eq_iff_iff, beq_iff_eq, beq_iff_eq]
  exact toLower_eq_iff (by decide)

def isDomainChar (c : Char) : Bool := isAsciiAlphanumeric c || c == '-' || c == '.'

theorem isDomainChar_toLower {c : Char} (h : isDomainChar c = true) : isDomainChar c.toLower = true := by
  by_cases hc : c.isUpper = true
  · have halpha : c.toLower.isAlpha = true := by
      rw [Char.isAlpha_toLower_eq_isAlpha]
      simp [Char.isAlpha, hc]
    simp [isDomainChar, isAsciiAlphanumeric, Char.isAlphanum, halpha]
  · rwa [Char.toLower_eq_of_not_isUpper hc]

theorem not_whitespace_of_isDomainChar {c : Char} (h : isDomainChar c = true) : isWhitespace c = false := by
  unfold isDomainChar isAsciiAlphanumeric at h
  rw [Bool.or_eq_true, Bool.or_eq_true, beq_iff_eq, beq_iff_eq] at h
  rcases h with (h | rfl) | rfl
  · have hrange : (65 ≤ c.toNat ∧ c.toNat ≤ 90) ∨ (97 ≤ c.toNat ∧ c.toNat ≤ 122) ∨ (48 ≤ c.toNat ∧ c.toNat ≤ 57) := by
      simp only [Char.isAlphanum, Char.isAlpha, Char.isUpper, Char.isLower, Char.isDigit, Bool.or_eq_true,
        Bool.and_eq_true, decide_eq_true_eq, ge_iff_le, UInt32.le_iff_toNat_le] at h
      simpa [or_assoc] using h
    unfold isWhitespace
    simp only [Bool.or_eq_false_iff, Bool.and_eq_false_iff, decide_eq_false_iff_not, beq_eq_false_iff_ne]
    omega
  · decide
  · decide

theorem isDomain_iff (value : String) : isDomain value = true ↔
    2 ≤ ((trimEndDots value.toList).splitOnP (· == '.')).length ∧
      (∀ label ∈ (trimEndDots value.toList).splitOnP (· == '.'), label ≠ []) ∧
      (∀ c ∈ trimEndDots value.toList, isDomainChar c = true) ∧
      ((((trimEndDots value.toList).splitOnP (· == '.')).getLast?.bind List.head?).any Char.isAlpha) = true := by
  unfold isDomain isDomainChar
  simp only [Bool.and_eq_true, decide_eq_true_eq, List.all_eq_true, Bool.not_eq_true', List.isEmpty_eq_false_iff, and_assoc,
    ne_eq]

theorem isDomain_chars {value : String} (h : isDomain value = true) : ∀ c ∈ value.toList, isDomainChar c = true := by
  obtain ⟨-, -, hchars, -⟩ := (isDomain_iff value).mp h
  intro c hc
  rw [← List.rdropWhile_append_rtakeWhile (p := (· == '.')) (l := value.toList), List.mem_append] at hc
  rcases hc with hc | hc
  · exact hchars c hc
  · have hdot := List.mem_rtakeWhile_imp hc
    rw [beq_iff_eq] at hdot
    subst hdot
    decide

theorem trim_of_isDomain {value : String} (h : isDomain value = true) : trim value = value :=
  trim_of_no_whitespace fun c hc => not_whitespace_of_isDomainChar (isDomain_chars h c hc)

theorem trimEndDots_domainOf (value : Text) : trimEndDots (domainOf value) = domainOf value := by
  rw [trimEndDots_eq, List.rdropWhile_eq_self_iff]
  intro hne
  unfold domainOf asciiLowercase at hne ⊢
  rw [List.getLast_map, toLower_isDot]
  exact List.rdropWhile_last_not (· == '.') value _

theorem domainOf_domainOf (value : Text) : domainOf (domainOf value) = domainOf value := by
  have hdots := trimEndDots_domainOf value
  unfold domainOf at hdots ⊢
  rw [hdots]
  unfold asciiLowercase
  rw [List.map_map]
  refine List.map_congr_left fun c _ => ?_
  exact Char.toLower_toLower_eq_toLower c

theorem isDomain_domainOf {value : String} (h : isDomain value = true) :
    isDomain (String.ofList (domainOf value.toList)) = true := by
  obtain ⟨hlength, hlabels, hchars, hlast⟩ := (isDomain_iff value).mp h
  rw [isDomain_iff, String.toList_ofList, trimEndDots_domainOf]
  unfold domainOf asciiLowercase
  rw [splitOnP_map toLower_isDot, List.length_map]
  refine ⟨hlength, ?_, ?_, ?_⟩
  · intro label hlabel
    obtain ⟨old, hold, rfl⟩ := List.mem_map.mp hlabel
    simpa using hlabels old hold
  · intro c hc
    obtain ⟨old, hold, rfl⟩ := List.mem_map.mp hc
    exact isDomainChar_toLower (hchars old hold)
  · rw [List.getLast?_map]
    rcases hlabel : ((trimEndDots value.toList).splitOnP (· == '.')).getLast? with _ | label
    · rw [hlabel] at hlast
      cases hlast
    · rw [hlabel] at hlast
      show ((label.map Char.toLower).head?).any Char.isAlpha = true
      rw [List.head?_map]
      rcases hfirst : label.head? with _ | c
      · have hnone : (label.head?).any Char.isAlpha = true := hlast
        rw [hfirst] at hnone
        cases hnone
      · have hc : (label.head?).any Char.isAlpha = true := hlast
        rw [hfirst] at hc
        show c.toLower.isAlpha = true
        rw [Char.isAlpha_toLower_eq_isAlpha]
        exact hc

/-! ## Saved matchers -/

/-- A value that is neither empty nor too long. -/
def Fits (value : String) : Prop := trim value ≠ "" ∧ (trim value).toList.length ≤ maxMatcherValueChars

/-- What is saved for a value that a kind accepts. -/
def Saved : MatcherKind → String → String → Prop
  | .any, _, saved => saved = ""
  | .commandPrefix, value, saved => Fits value ∧ prefixWordsArePlain (trim value).toList = true ∧
      saved = String.ofList (joinWords (trim value).toList)
  | .pathGlob, value, saved => Fits value ∧ (relativeComponents (trim value)).isSome = true ∧ saved = trim value
  | .domain, value, saved => Fits value ∧ isDomain (trim value) = true ∧ saved = String.ofList (domainOf (trim value).toList)

variable {tool : String} {m m' : ApprovalMatcher}

theorem fits_iff {value : String} :
    (!(trim value).isEmpty && decide ((trim value).toList.length ≤ maxMatcherValueChars)) = true ↔ Fits value := by
  unfold Fits
  rw [Bool.and_eq_true, decide_eq_true_eq, Bool.not_eq_true', ← Bool.not_eq_true, String.isEmpty_iff]

theorem check_eq_ok {kind kind' : MatcherKind} {value value' made : String} (test : Bool) :
    (if !(trim value).isEmpty && decide ((trim value).toList.length ≤ maxMatcherValueChars) && test then
        Except.ok ({ kind := kind, value := made } : ApprovalMatcher)
      else .error matcherValueInvalid) = .ok { kind := kind', value := value' } ↔
      kind' = kind ∧ Fits value ∧ test = true ∧ value' = made := by
  split_ifs with h
  · rw [Bool.and_eq_true, fits_iff] at h
    rw [Except.ok.injEq, ApprovalMatcher.mk.injEq]
    exact ⟨fun heq => ⟨heq.1.symm, h.1, h.2, heq.2.symm⟩, fun heq => ⟨heq.1.symm, heq.2.2.2.symm⟩⟩
  · rw [Bool.and_eq_true, fits_iff] at h
    constructor
    · intro heq
      cases heq
    · rintro ⟨-, hfits, htest, -⟩
      exact absurd ⟨hfits, htest⟩ h

theorem intercalate_ofList (words : List Text) :
    " ".intercalate (words.map String.ofList) = String.ofList ([' '].intercalate words) := by
  have hid : String.toList ∘ String.ofList = id := funext fun x => String.toList_ofList
  rw [← String.toList_inj, String.toList_intercalate, List.map_map, hid, List.map_id]
  exact String.toList_ofList.symm

theorem validateMatcher_eq_ok : validateMatcher tool m = .ok m' ↔
    m.kind ∈ matcherKinds tool ∧ m'.kind = m.kind ∧ Saved m.kind m.value m'.value := by
  rcases m with ⟨kind, value⟩
  rcases m' with ⟨kind', value'⟩
  unfold validateMatcher
  by_cases hkind : kind ∈ matcherKinds tool
  · rw [if_neg (not_not.mpr hkind)]
    refine Iff.trans ?_ (and_iff_right hkind).symm
    cases kind with
    | any =>
      show Except.ok ApprovalMatcher.any = Except.ok _ ↔ kind' = .any ∧ value' = ""
      rw [Except.ok.injEq, ApprovalMatcher.any, ApprovalMatcher.mk.injEq, eq_comm, eq_comm (a := "")]
    | commandPrefix =>
      have hjoin := intercalate_ofList (shellWords (trim value).toList)
      simp only [hjoin]
      exact check_eq_ok (prefixWordsArePlain (trim value).toList)
    | pathGlob => exact check_eq_ok (relativeComponents (trim value)).isSome
    | domain => exact check_eq_ok (isDomain (trim value))
  · rw [if_pos hkind]
    simp [hkind]

theorem Fits.again {value saved : String} (h : Fits value) (hne : saved ≠ "") (htrim : trim saved = saved)
    (hlength : saved.toList.length ≤ (trim value).toList.length) : Fits saved := by
  unfold Fits
  rw [htrim]
  exact ⟨hne, hlength.trans h.2⟩

theorem shellWords_ne_nil {c : Char} (hc : c ∈ text) (hblank : isBlank c = false) : shellWords text ≠ [] := by
  induction text using split_induction (p := isBlank) with
  | piece x hx =>
    rw [shellWords_single hx (List.ne_nil_of_mem hc)]
    exact List.cons_ne_nil _ _
  | more x d y hx hd ih =>
    rw [shellWords_blank hd]
    intro hnil
    obtain ⟨hleft, hright⟩ := List.append_eq_nil_iff.mp hnil
    rcases List.mem_append.mp hc with hc | hc
    · rw [shellWords_single hx (List.ne_nil_of_mem hc)] at hleft
      cases hleft
    · rcases List.mem_cons.mp hc with rfl | hc
      · rw [hd] at hblank
        cases hblank
      · exact ih hc hright

theorem Saved.again {kind : MatcherKind} {value saved : String} (h : Saved kind value saved) : Saved kind saved saved := by
  cases kind with
  | any => exact h
  | commandPrefix =>
    obtain ⟨hfits, hplain, rfl⟩ := h
    obtain ⟨-, hodd, -⟩ := prefixWordsArePlain_iff.mp hplain
    have htrim := trim_joinWords hodd
    have hne : String.ofList (joinWords (trim value).toList) ≠ "" := by
      intro hempty
      have hchars : (trim value).toList ≠ [] := fun heq => hfits.1 (String.toList_inj.mp heq)
      obtain ⟨c, rest, hlist⟩ := List.exists_cons_of_ne_nil hchars
      have hws : isWhitespace c = false := by
        refine (trim_eq_self_iff.mp (trim_trim value)).1 c ?_
        rw [hlist]
        rfl
      have hblank : isBlank c = false := by
        by_contra htrue
        rw [Bool.not_eq_false] at htrue
        simp only [isBlank, Bool.or_eq_true, beq_iff_eq] at htrue
        rcases htrue with rfl | rfl <;> exact absurd hws (by decide)
      have hmem : c ∈ (trim value).toList := hlist ▸ List.mem_cons_self
      refine shellWords_ne_nil hmem hblank ?_
      have hjoined : joinWords (trim value).toList = [] := by simpa using congrArg String.toList hempty
      rw [← shellWords_joinWords, hjoined, shellWords_nil]
    refine ⟨hfits.again hne htrim ?_, ?_, ?_⟩
    · rw [String.toList_ofList]
      exact length_joinWords_le
    · rw [htrim, String.toList_ofList]
      exact prefixWordsArePlain_joinWords hplain
    · rw [htrim, String.toList_ofList]
      show _ = String.ofList ([' '].intercalate (shellWords (joinWords (trim value).toList)))
      rw [shellWords_joinWords]
      rfl
  | pathGlob =>
    obtain ⟨hfits, hsome, rfl⟩ := h
    exact ⟨hfits.again hfits.1 (trim_trim value) le_rfl, by rwa [trim_trim], (trim_trim value).symm⟩
  | domain =>
    obtain ⟨hfits, hdomain, rfl⟩ := h
    have hagain := isDomain_domainOf hdomain
    have htrim := trim_of_isDomain hagain
    refine ⟨hfits.again ?_ htrim ?_, ?_, ?_⟩
    · intro hempty
      rw [hempty] at hagain
      exact absurd hagain (by decide)
    · rw [String.toList_ofList]
      unfold domainOf asciiLowercase
      rw [List.length_map]
      exact (List.rdropWhile_prefix (l := (trim value).toList) (· == '.')).length_le
    · rw [htrim]
      exact hagain
    · rw [htrim, String.toList_ofList, domainOf_domainOf]

theorem validateMatcher_validateMatcher (h : validateMatcher tool m = .ok m') : validateMatcher tool m' = .ok m' := by
  rw [validateMatcher_eq_ok] at h ⊢
  obtain ⟨hkind, hkind', hsaved⟩ := h
  rw [hkind']
  exact ⟨hkind, rfl, hsaved.again⟩

theorem matcherMatches_odd (parse : String → Option Url) (hkind : m.kind = .commandPrefix)
    (hodd : hasOddWhitespace m.value.toList = true) (call : ToolCall) : matcherMatches parse m call = false := by
  have hplain : prefixWordsArePlain m.value.toList = false := by
    by_contra htrue
    rw [Bool.not_eq_false, prefixWordsArePlain_iff] at htrue
    rw [htrue.2.1] at hodd
    cases hodd
  have hnone : ∀ command : String, commandHasPrefix command.toList m.value.toList = false := by
    intro command
    unfold commandHasPrefix
    rw [hplain]
    simp
  unfold matcherMatches
  by_cases hfit : m.kind ∈ matcherKinds call.name
  · rw [if_neg (not_not.mpr hfit)]
    simp only [hkind, hnone]
    rcases stringArg call "command" with _ | command <;> rfl
  · rw [if_pos hfit]

theorem matcherMatches_saved (parse : String → Option Url) (h : validateMatcher tool m = .ok m')
    (hodd : m.kind = .commandPrefix → hasOddWhitespace m.value.toList = false) (call : ToolCall) :
    matcherMatches parse m' call = matcherMatches parse m call := by
  obtain ⟨-, hkind, hsaved⟩ := validateMatcher_eq_ok.mp h
  rcases m with ⟨kind, value⟩
  rcases m' with ⟨kind', saved⟩
  obtain rfl : kind' = kind := hkind
  unfold matcherMatches
  by_cases hfit : kind' ∈ matcherKinds call.name
  · rw [if_neg (not_not.mpr hfit), if_neg (not_not.mpr hfit)]
    cases kind' with
    | any => rfl
    | commandPrefix =>
      obtain ⟨-, hplain, rfl⟩ := hsaved
      obtain ⟨htrimPlain, htrimWords⟩ := prefix_trim (hodd rfl)
      have hjoin : ∀ command,
          commandHasPrefix command (joinWords (trim value).toList) = commandHasPrefix command value.toList := by
        intro command
        refine commandHasPrefix_congr ?_ ?_
        · rw [prefixWordsArePlain_joinWords hplain, ← htrimPlain, hplain]
        · rw [shellWords_joinWords, htrimWords]
      simp only [String.toList_ofList, hjoin]
    | pathGlob =>
      obtain ⟨-, -, rfl⟩ := hsaved
      simp only [pathMatches, relativeComponents_trim]
    | domain =>
      obtain ⟨-, hdomain, rfl⟩ := hsaved
      have htrim := trim_of_isDomain (isDomain_domainOf hdomain)
      have hsame := domainOf_domainOf (trim value).toList
      unfold domainOf at htrim hsame ⊢
      simp only [urlInDomain, htrim, String.toList_ofList, hsame]
  · rw [if_pos hfit, if_pos hfit]

end AnimaCore.Approvals
