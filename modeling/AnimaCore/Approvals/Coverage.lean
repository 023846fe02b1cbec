import AnimaCore.Approvals.Normalized

/-!
# AnimaCore.Approvals.Coverage — a suggested matcher covers its call

What "Always allow" offers for a call is derived from the call, then validated, and later matched against calls.
`saved_matchers_cover`: validation keeps what a matcher covers, and a suggestion with a value covers the call that it was
offered for.

Of the URL parser it is assumed that a domain has no white space (`CleanDomains`).
-/

namespace AnimaCore.Approvals

open Lib ShellLex AnimaMemory

/-! ## Commands -/

section

variable {text : Text}

theorem takeWhile_of_noOperators (h : NoOperators text) :
    (text.takeWhile fun c => !shellOperators.contains c) = text := by
  rw [List.takeWhile_eq_self_iff]
  intro c hc
  have hno := h c hc
  simpa using hno

theorem commandSuggestion_spec (hoperators : NoOperators text) (hne : commandSuggestion text ≠ []) :
    shellWords (commandSuggestion text) ≠ [] ∧ shellWords (commandSuggestion text) <+: shellWords text ∧
      ∀ c ∈ commandSuggestion text, c = ' ' ∨ c ∈ text := by
  have hhead := takeWhile_of_noOperators hoperators
  unfold commandSuggestion at hne ⊢
  rw [hhead] at hne ⊢
  simp only at hne ⊢
  rcases hwords : shellWords text with _ | ⟨first, words⟩
  · rw [hwords] at hne
    exact absurd rfl hne
  have hfirst := mem_shellWords (hwords ▸ List.mem_cons_self : first ∈ shellWords text)
  have hsingle := shellWords_single (fun c hc => (hfirst.2 c hc).2) hfirst.1
  rw [hwords] at hne
  simp only at hne ⊢
  by_cases hrefused : (first.any shellWordSpecials.contains || hasOddWhitespace first || isWrapper first) = true
  · rw [if_pos hrefused] at hne
    exact absurd rfl hne
  rw [if_neg hrefused]
  rcases words with _ | ⟨second, words⟩
  · simp only
    rw [hsingle]
    exact ⟨List.cons_ne_nil _ _, List.prefix_rfl, fun c hc => .inr (hfirst.2 c hc).1⟩
  · have hsecond := mem_shellWords (hwords ▸ List.mem_cons_of_mem first List.mem_cons_self : second ∈ shellWords text)
    simp only
    split_ifs
    · have hboth : shellWords (first ++ ' ' :: second) = [first, second] := by
        rw [shellWords_blank (by decide), hsingle, shellWords_single (fun c hc => (hsecond.2 c hc).2) hsecond.1]
        rfl
      rw [hboth]
      refine ⟨List.cons_ne_nil _ _, ⟨words, rfl⟩, ?_⟩
      intro c hc
      rcases List.mem_append.mp hc with hc | hc
      · exact .inr (hfirst.2 c hc).1
      · rcases List.mem_cons.mp hc with rfl | hc
        · exact .inl rfl
        · exact .inr (hsecond.2 c hc).1
    · rw [hsingle]
      exact ⟨List.cons_ne_nil _ _, ⟨second :: words, rfl⟩, fun c hc => .inr (hfirst.2 c hc).1⟩

theorem commandHasPrefix_suggestion {command : Text} {saved : String} (hoperators : NoOperators command)
    (hodd : hasOddWhitespace command = false) (hne : commandSuggestion command ≠ [])
    (hsaved : Saved .commandPrefix (String.ofList (commandSuggestion command)) saved) :
    commandHasPrefix command saved.toList = true := by
  obtain ⟨hwords, hfirst, hchars⟩ := commandSuggestion_spec hoperators hne
  obtain ⟨-, hplain, rfl⟩ := hsaved
  have hclean : hasOddWhitespace (String.ofList (commandSuggestion command)).toList = false := by
    rw [String.toList_ofList, hasOddWhitespace_eq_false]
    rw [hasOddWhitespace_eq_false] at hodd
    intro c hc
    rcases hchars c hc with rfl | hc
    · exact .inl (by decide)
    · exact hodd c hc
  have htrim := (prefix_trim hclean).2
  rw [String.toList_ofList] at htrim
  rw [String.toList_ofList, commandHasPrefix_iff, shellWords_joinWords, htrim]
  exact ⟨hoperators, hodd, prefixWordsArePlain_joinWords hplain, hwords, hfirst⟩

/-! ## Paths -/

def Literal (text : Text) : Prop := ∀ c ∈ text, c ≠ '*' ∧ c ≠ '?'

theorem literalStars_self (h : Literal text) : LiteralStars text text := by
  induction text with
  | nil => exact rfl
  | cons c text ih =>
    obtain ⟨hc, h⟩ := List.forall_mem_cons.mp h
    refine .inr ⟨by simpa [isStar] using hc.1, c, text, rfl, by simp [fitsLetter], ih h⟩

theorem pathWildcard_append {names pattern path : List String} (hnames : ∀ name ∈ names, Literal name.toList)
    (h : PathWildcard LiteralStars pattern path) : PathWildcard LiteralStars (names ++ pattern) (names ++ path) := by
  induction names with
  | nil => exact h
  | cons name names ih =>
    obtain ⟨hname, hnames⟩ := List.forall_mem_cons.mp hnames
    refine .inr ⟨?_, name, names ++ path, rfl, literalStars_self hname, ih hnames⟩
    have hstars : name ≠ "**" := by
      rintro rfl
      exact (hname '*' (by decide)).1 rfl
    simpa [isGlobstar] using hstars

theorem component_globstar : Component "**" where
  ne_empty := by decide
  ne_dot := by decide
  ne_dots := by decide
  colon := by simp
  trimmed := by
    rw [trim_eq_self_iff]
    simp [isWhitespace]
  separator := by simp [isPathSeparator]

theorem pathCovers_suggestion {path : String} (hne : pathSuggestion path ≠ "") :
    PathCovers LiteralStars (pathSuggestion path) path := by
  unfold pathSuggestion at hne ⊢
  rcases hpath : relativeComponents path with _ | names
  · rw [hpath] at hne
    exact absurd rfl hne
  obtain ⟨hnames, hall⟩ := component_of_relativeComponents hpath
  rw [hpath] at hne
  simp only at hne ⊢
  by_cases hwild : (names.any fun component => component.toList.any fun c => c == '*' || c == '?') = true
  · rw [if_pos hwild] at hne
    exact absurd rfl hne
  rw [if_neg hwild]
  have hliteral : ∀ name ∈ names, Literal name.toList := by
    intro name hname c hc
    simp only [List.any_eq_true, not_exists, not_and, Bool.or_eq_true, beq_iff_eq, not_or] at hwild
    exact hwild name hname c hc
  by_cases hlong : 1 < names.length
  · rw [if_pos hlong]
    have hfront : names.dropLast ≠ [] := by
      intro hnil
      have hlength := congrArg List.length hnil
      rw [List.length_dropLast, List.length_nil] at hlength
      omega
    have hjoin : "/".intercalate names.dropLast ++ "/**" = "/".intercalate (names.dropLast ++ ["**"]) := by
      rw [String.intercalate_append_of_ne_nil hfront (by simp), String.intercalate_singleton, String.append_assoc]
      rfl
    refine ⟨names.dropLast ++ ["**"], names, ?_, hpath, ?_⟩
    · rw [hjoin]
      refine relativeComponents_join (by simp) ?_
      intro name hname
      rcases List.mem_append.mp hname with hname | hname
      · exact hall name (List.mem_of_mem_dropLast hname)
      · rw [List.mem_singleton.mp hname]
        exact component_globstar
    · have hlast : PathWildcard LiteralStars ["**"] [names.getLast hnames] := .inl ⟨rfl, [], List.nil_suffix, rfl⟩
      have hcovers := pathWildcard_append (fun name hname => hliteral name (List.mem_of_mem_dropLast hname)) hlast
      rwa [List.dropLast_append_getLast hnames] at hcovers
  · rw [if_neg hlong]
    obtain ⟨name, rest, rfl⟩ := List.exists_cons_of_ne_nil hnames
    have hrest : rest = [] := by
      rw [List.length_cons] at hlong
      exact List.eq_nil_of_length_eq_zero (by omega)
    subst hrest
    have hnil : PathWildcard LiteralStars [] [] := rfl
    have hone := relativeComponents_join (by simp) hall
    rw [String.intercalate_singleton] at hone
    exact ⟨[name], [name], hone, hpath, pathWildcard_append hliteral hnil⟩

/-! ## Domains -/

/-- The parser gives no domain with white space in it. -/
def CleanDomains (parse : String → Option Url) : Prop :=
  ∀ url parsed domain, parse url = some parsed → parsed.domain = some domain → ∀ c ∈ domain.toList, isWhitespace c = false

variable {parse : String → Option Url}

theorem isWhitespace_toLower {c : Char} (h : isWhitespace c = false) : isWhitespace c.toLower = false := by
  by_cases hc : c.isUpper = true
  · refine not_whitespace_of_isDomainChar (isDomainChar_toLower ?_)
    simp [isDomainChar, isAsciiAlphanumeric, Char.isAlphanum, Char.isAlpha, hc]
  · rwa [Char.toLower_eq_of_not_isUpper hc]

theorem httpHost_eq_some {url host : String} (hparse : CleanDomains parse) (h : httpHost parse url = some host) :
    trim host = host ∧ domainOf host.toList = host.toList := by
  unfold httpHost at h
  obtain ⟨parsed, hparsed, h⟩ := Option.bind_eq_some_iff.mp h
  split_ifs at h with hscheme
  obtain ⟨domain, hdomain, h⟩ := Option.bind_eq_some_iff.mp h
  simp only at h
  split_ifs at h with hempty
  cases h
  rw [String.toList_ofList]
  refine ⟨trim_of_no_whitespace ?_, domainOf_domainOf domain.toList⟩
  rw [String.toList_ofList]
  intro c hc
  obtain ⟨old, hold, rfl⟩ := List.mem_map.mp hc
  have hmem : old ∈ domain.toList := (List.rdropWhile_prefix (l := domain.toList) (· == '.')).subset hold
  exact isWhitespace_toLower (hparse url parsed domain hparsed hdomain old hmem)

theorem urlInDomain_suggestion {url host saved : String} (hparse : CleanDomains parse) (h : httpHost parse url = some host)
    (hsaved : Saved .domain host saved) : urlInDomain parse url saved = true := by
  obtain ⟨htrim, hnormal⟩ := httpHost_eq_some hparse h
  obtain ⟨-, hdomain, rfl⟩ := hsaved
  rw [htrim] at hdomain ⊢
  rw [hnormal, String.ofList_toList]
  have hlower : asciiLowercase (trimEndDots host.toList) = host.toList := hnormal
  unfold urlInDomain
  simp only [htrim, hlower, String.ofList_toList, hdomain, h, Option.any_some, beq_self_eq_true, Bool.true_or, Bool.true_and]

/-! ## Suggestions -/

theorem matcherKinds_cases (tool : String) : matcherKinds tool = [.any] ∨
    ∃ kind, matcherKinds tool = [kind, .any] ∧ kind ≠ .any := by
  unfold matcherKinds
  split_ifs
  · exact .inr ⟨.commandPrefix, rfl, by decide⟩
  · exact .inr ⟨.pathGlob, rfl, by decide⟩
  · exact .inr ⟨.domain, rfl, by decide⟩
  · exact .inl rfl

variable {call : ToolCall}

theorem suggestedMatcher_spec {kind : MatcherKind} {rest : List MatcherKind}
    (hkinds : matcherKinds call.name = kind :: rest) (hkind : kind ≠ .any) :
    (suggestedMatcher parse call).kind = kind ∧ ((suggestedMatcher parse call).value ≠ "" →
      Saved kind ((suggestedValue parse call kind).getD "") (suggestedMatcher parse call).value) := by
  unfold suggestedMatcher
  rw [hkinds, List.headD_cons]
  simp only
  rw [if_neg hkind]
  rcases hvalid : validateMatcher call.name { kind := kind, value := (suggestedValue parse call kind).getD "" } with _ | m
  · exact ⟨rfl, fun hne => absurd rfl hne⟩
  · obtain ⟨-, hsame, hsaved⟩ := validateMatcher_eq_ok.mp hvalid
    exact ⟨hsame, fun _ => hsaved⟩

theorem matcherKinds_of_suggestedMatcher (h : (suggestedMatcher parse call).kind = .any) : matcherKinds call.name = [.any] := by
  rcases matcherKinds_cases call.name with hkinds | ⟨kind, hkinds, hkind⟩
  · exact hkinds
  · have hsame : (suggestedMatcher parse call).kind = kind := (suggestedMatcher_spec hkinds hkind).1
    exact absurd (hsame.symm.trans h) hkind

theorem Saved.value_ne {kind : MatcherKind} {value saved : String} (h : Saved kind value saved) (hkind : kind ≠ .any) :
    value ≠ "" := by
  have hfits : Fits value := by
    cases kind with
    | any => exact absurd rfl hkind
    | commandPrefix => exact h.1
    | pathGlob => exact h.1
    | domain => exact h.1
  rintro rfl
  exact hfits.1 (by decide)

theorem matcherMatches_suggestedMatcher (hparse : CleanDomains parse) (hvalue : (suggestedMatcher parse call).value ≠ "")
    (hcommand : MatcherKind.commandPrefix ∈ matcherKinds call.name → ∀ command, stringArg call "command" = some command →
      NoOperators command.toList ∧ hasOddWhitespace command.toList = false) :
    matcherMatches parse (suggestedMatcher parse call) call = true := by
  rcases matcherKinds_cases call.name with hkinds | ⟨kind, hkinds, hkind⟩
  · refine absurd ?_ hvalue
    unfold suggestedMatcher
    rw [hkinds]
    rfl
  have hsame : (suggestedMatcher parse call).kind = kind := (suggestedMatcher_spec hkinds hkind).1
  have hsaved := (suggestedMatcher_spec hkinds hkind).2 hvalue
  have hne := hsaved.value_ne hkind
  rcases hmatcher : suggestedMatcher parse call with ⟨kind', saved⟩
  rw [hmatcher] at hsame hsaved
  obtain rfl : kind' = kind := hsame
  have hmem : kind' ∈ matcherKinds call.name := hkinds ▸ List.mem_cons_self
  unfold matcherMatches
  rw [if_neg (not_not.mpr hmem)]
  cases kind' with
  | any => rfl
  | commandPrefix =>
    rcases harg : stringArg call "command" with _ | command
    · simp [suggestedValue, harg] at hne
    · obtain ⟨hoperators, hodd⟩ := hcommand hmem command harg
      have hvalueEq : (suggestedValue parse call .commandPrefix).getD "" =
          String.ofList (commandSuggestion command.toList) := by simp [suggestedValue, harg]
      rw [hvalueEq] at hsaved hne
      have hsuggested : commandSuggestion command.toList ≠ [] := fun heq => hne (by rw [heq])
      simp only [Option.any_some]
      exact commandHasPrefix_suggestion hoperators hodd hsuggested hsaved
  | pathGlob =>
    rcases harg : stringArg call "file_path" with _ | path
    · simp [suggestedValue, harg] at hne
    · have hvalueEq : (suggestedValue parse call .pathGlob).getD "" = pathSuggestion path := by simp [suggestedValue, harg]
      rw [hvalueEq] at hsaved hne
      obtain ⟨-, -, rfl⟩ := hsaved
      obtain ⟨pattern, names, hglob, hpath, hreads⟩ := pathCovers_suggestion hne
      have hcovers : PathCovers LiteralStars (trim (pathSuggestion path)) path :=
        ⟨pattern, names, (relativeComponents_trim _).trans hglob, hpath, hreads⟩
      simp only [Option.any_some]
      exact pathMatches_iff.mpr hcovers
  | domain =>
    rcases harg : stringArg call "url" with _ | url
    · simp [suggestedValue, harg] at hne
    · rcases hhost : httpHost parse url with _ | host
      · simp [suggestedValue, harg, hhost] at hne
      · have hvalueEq : (suggestedValue parse call .domain).getD "" = host := by simp [suggestedValue, harg, hhost]
        rw [hvalueEq] at hsaved
        simp only [Option.any_some]
        exact urlInDomain_suggestion hparse hhost hsaved

/-- **Saved matchers keep their meaning, and suggestions cover their calls.**  What is saved stays as it is and covers what
was asked for, unless a command prefix has odd white space around it: that one covers nothing.  A suggestion with a value
covers its call, and only a tool without a narrower kind gets `any`. -/
theorem saved_matchers_cover (parse : String → Option Url) (hparse : CleanDomains parse) :
    (∀ (tool : String) (m m' : ApprovalMatcher), validateMatcher tool m = .ok m' →
      validateMatcher tool m' = .ok m' ∧ ∀ call : ToolCall, call.name = tool →
        matcherMatches parse m call =
          if m.kind = .commandPrefix ∧ hasOddWhitespace m.value.toList = true then false else matcherMatches parse m' call) ∧
    (∀ call : ToolCall, (suggestedMatcher parse call).value ≠ "" →
      (MatcherKind.commandPrefix ∈ matcherKinds call.name → ∀ command, stringArg call "command" = some command →
        NoOperators command.toList ∧ hasOddWhitespace command.toList = false) →
      matcherMatches parse (suggestedMatcher parse call) call = true) ∧
    (∀ call : ToolCall, (suggestedMatcher parse call).kind = .any → matcherKinds call.name = [.any]) := by
  refine ⟨?_, fun call => matcherMatches_suggestedMatcher hparse, fun call => matcherKinds_of_suggestedMatcher⟩
  intro tool m m' h
  refine ⟨validateMatcher_validateMatcher h, fun call _ => ?_⟩
  by_cases hodd : m.kind = .commandPrefix ∧ hasOddWhitespace m.value.toList = true
  · rw [if_pos hodd]
    exact matcherMatches_odd parse hodd.1 hodd.2 call
  · rw [if_neg hodd]
    refine (matcherMatches_saved parse h ?_ call).symm
    intro hkind
    by_contra htrue
    exact hodd ⟨hkind, by simpa using htrue⟩

end

/-! ## A run -/

namespace Sample

def parse (url : String) : Option Url :=
  if url = "https://Docs.Example.com./a" then some { scheme := "https", domain := some "docs.example.com." }
  else if url = "http://127.0.0.1/" then some { scheme := "http", domain := none }
  else none

def call (name key value : String) : ToolCall := { id := "c", name := name, args := .cons key (.string value) .nil }

end Sample

theorem saved_matchers_cover_sample : matcherMatches Sample.parse
    (suggestedMatcher Sample.parse (Sample.call "web_fetch" "url" " https://Docs.Example.com./a"))
    (Sample.call "web_fetch" "url" " https://Docs.Example.com./a") = true := by
  refine (saved_matchers_cover Sample.parse ?_).2.1 _ (by decide +kernel) ?_
  · intro url parsed domain hparsed hdomain
    unfold Sample.parse at hparsed
    split_ifs at hparsed
    · cases hparsed
      cases hdomain
      have hall : ("docs.example.com.".toList.all fun c => !isWhitespace c) = true := by decide +kernel
      intro c hc
      simpa using List.all_eq_true.mp hall c hc
    · cases hparsed
      cases hdomain
  · intro hmem
    exact absurd hmem (by decide +kernel)

/-- A line break after the prefix makes the difference. -/
theorem trimmed_prefix_covers_more : ¬ ∀ (tool : String) (m m' : ApprovalMatcher), validateMatcher tool m = .ok m' →
    ∀ call : ToolCall, call.name = tool → matcherMatches Sample.parse m' call = matcherMatches Sample.parse m call := by
  intro h
  have := h "bash" { kind := .commandPrefix, value := "git status\n" } { kind := .commandPrefix, value := "git status" }
    (by decide +kernel) (Sample.call "bash" "command" "git status") rfl
  revert this
  decide +kernel

end AnimaCore.Approvals
