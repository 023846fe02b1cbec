import AnimaCore.ShellLex

/-!
# AnimaCore.CommandPrefix — what a command-prefix rule lets through

`approvals/policy.rs`, `command_has_prefix`.  The rule reads the command by character tests and by a split on spaces and
tabs; the floor reads it with the lexer.  `prefix_rule_covers_one_plain_command`: a command the rule matches is one plain
command to the lexer, and its first words are the words of the rule.
-/

namespace AnimaCore.ShellLex

/-! ## The rule -/

def shellOperators : Text := [';', '&', '|', '`', '$', '>', '<', '(', ')', '\n', '\r']

def shellWordSpecials : Text := ['\'', '"', '\\', '*', '?', '[', ']', '\x7b', '\x7d', '~', '#']

def hasOddWhitespace (text : Text) : Bool := text.any fun c => c != ' ' && c != '\t' && (isWhitespace c || isControl c)

/-- What `shell_words` splits on. -/
def isBlank (c : Char) : Bool := c == ' ' || c == '\t'

def shellWords (text : Text) : List Text := (text.splitOnP isBlank).filter fun word => !word.isEmpty

def prefixWordsArePlain (words : Text) : Bool :=
  !words.any shellOperators.contains && !hasOddWhitespace words &&
    (shellWords words).all fun word => !word.any shellWordSpecials.contains

def commandHasPrefix (command start : Text) : Bool :=
  if command.any shellOperators.contains || hasOddWhitespace command then false
  else if !prefixWordsArePlain start then false
  else
    let start := shellWords start
    let words := shellWords command
    !start.isEmpty && decide (start.length ≤ words.length) && words.take start.length == start

example : commandHasPrefix "git\tstatus -s".toList "git status".toList = true := by decide
example : commandHasPrefix "git status; rm -rf ~".toList "git status".toList = false := by decide

/-! ## The split -/

theorem shellWords_blank {c : Char} (hc : isBlank c = true) (x y : Text) :
    shellWords (x ++ c :: y) = shellWords x ++ shellWords y := by
  have hsplit := List.splitOnP_append_cons x y hc
  simp only [shellWords, hsplit, List.filter_append]

theorem shellWords_nil : shellWords [] = [] := rfl

theorem shellWords_single {x : Text} (hx : ∀ c ∈ x, isBlank c = false) (hne : x ≠ []) : shellWords x = [x] := by
  have hsplit : x.splitOnP isBlank = [x] := List.splitOnP_eq_singleton hx
  unfold shellWords
  rw [hsplit, List.filter_cons_of_pos (by simpa using hne), List.filter_nil]

theorem shellWords_head {x : Text} (hx : ∀ c ∈ x, isBlank c = false) (hne : x ≠ []) (y : Text) :
    ∃ z words, shellWords (x ++ y) = (x ++ z) :: words := by
  have hy : y.takeWhile (fun c => !isBlank c) ++ y.dropWhile (fun c => !isBlank c) = y := List.takeWhile_append_dropWhile
  have hfirst : ∀ c ∈ x ++ y.takeWhile (fun c => !isBlank c), isBlank c = false := by
    intro c hc
    rcases List.mem_append.mp hc with hc | hc
    · exact hx c hc
    · simpa using List.mem_takeWhile_imp hc
  have hword := shellWords_single hfirst (by simp [hne])
  rcases hdrop : y.dropWhile (fun c => !isBlank c) with _ | ⟨c, rest⟩
  · refine ⟨y.takeWhile (fun c => !isBlank c), [], ?_⟩
    rw [hdrop, List.append_nil] at hy
    rw [hy] at hword ⊢
    exact hword
  · refine ⟨y.takeWhile (fun c => !isBlank c), shellWords rest, ?_⟩
    have hc : isBlank c = true := by
      have := List.head?_dropWhile_not (fun c => !isBlank c) y
      rw [hdrop] at this
      simpa using this
    calc shellWords (x ++ y) = shellWords ((x ++ y.takeWhile fun c => !isBlank c) ++ c :: rest) := by
          rw [List.append_assoc, ← hdrop, hy]
      _ = _ := by rw [shellWords_blank hc, hword, List.singleton_append]

/-! ## A quiet lexer

Without an operator in the text the lexer stays in its first command: it collects words, and nothing in them is expanded.
-/

def Word.Plain (w : Word) : Prop := w.dynamic = false ∧ w.substitutions = []

theorem Word.plain_empty : Word.empty.Plain := ⟨rfl, rfl⟩

theorem Word.Plain.push {w : Word} (h : w.Plain) (value : Char) (raw : Text) : (w.push value raw).Plain := h

theorem Word.Plain.written {w : Word} (h : w.Plain) (value raw : Text) :
    Word.Plain { w with value := value, raw := raw } := h

theorem Word.Plain.pushRaw {w : Word} (h : w.Plain) (raw : Text) : (w.pushRaw raw).Plain := h

/-- The command has words only, and they are plain. -/
structure Command.Plain (c : Command) : Prop where
  redirects : c.redirects = []
  heredocs : c.heredocs = []
  hereStrings : c.hereStrings = []
  waiting : c.waiting = []
  words : ∀ w ∈ c.words, w.Plain

def NoOperators (text : Text) : Prop := ∀ c ∈ text, c ∉ shellOperators

theorem NoOperators.suffix {x y : Text} (h : NoOperators y) (hxy : x <:+ y) : NoOperators x :=
  fun c hc => h c (hxy.subset hc)

namespace Lexer

/-- The lexer is in its first command, and that command is plain so far. -/
structure Quiet (l : Lexer) : Prop where
  pipelines : l.out.pipelines = []
  pipeline : l.pipeline = []
  awaiting : l.awaiting = []
  pending : l.pending = none
  command : l.command.Plain
  word : (l.word.getD .empty).Plain
  rest : NoOperators l.rest

theorem quiet_start {text : Text} (h : NoOperators text) : (start text).Quiet where
  pipelines := rfl
  pipeline := rfl
  awaiting := rfl
  pending := rfl
  command := ⟨rfl, rfl, rfl, rfl, fun _ hw => absurd hw List.not_mem_nil⟩
  word := Word.plain_empty
  rest := h

theorem Quiet.skip {l : Lexer} (h : l.Quiet) {rest : Text} (hrest : rest <:+ l.rest) : Quiet { l with rest := rest } :=
  { h with rest := h.rest.suffix hrest }

theorem Quiet.onward {l : Lexer} (h : l.Quiet) {w : Word} (hw : w.Plain) {rest : Text} (hrest : rest <:+ l.rest)
    (unclosed : Bool) : Quiet { l with word := some w, rest := rest, out := { l.out with unclosed := unclosed } } where
  pipelines := h.pipelines
  pipeline := h.pipeline
  awaiting := h.awaiting
  pending := h.pending
  command := h.command
  word := hw
  rest := h.rest.suffix hrest

theorem finishWord_of_pending {l : Lexer} (h : l.pending = none) :
    l.finishWord =
      { l with command := { l.command with words := l.command.words ++ l.word.toList }, word := none } := by
  unfold finishWord
  rcases hw : l.word with _ | w
  · rcases l
    simp_all
  · simp [Command.place, h]

theorem Quiet.finish {l : Lexer} (h : l.Quiet) : l.finishWord.Quiet := by
  rw [finishWord_of_pending h.pending]
  refine ⟨h.pipelines, h.pipeline, h.awaiting, h.pending, ?_, Word.plain_empty, h.rest⟩
  refine ⟨h.command.redirects, h.command.heredocs, h.command.hereStrings, h.command.waiting, ?_⟩
  intro w hw
  rcases List.mem_append.mp hw with hw | hw
  · exact h.command.words w hw
  · have hword := h.word
    rw [Option.mem_toList] at hw
    rwa [Option.mem_def.mp hw] at hword

end Lexer

theorem doubleLoop_plain (alnum : Char → Bool) : ∀ (rounds : ℕ) (q : Quoted), q.word.Plain → NoOperators q.rest →
    (doubleLoop alnum rounds q).word.Plain ∧ (doubleLoop alnum rounds q).rest <:+ q.rest := by
  intro rounds
  induction rounds with
  | zero => intro q hw _; exact ⟨hw, List.suffix_rfl⟩
  | succ rounds ih =>
    intro q hw hq
    have on : ∀ q' : Quoted, q'.word.Plain → q'.rest <:+ q.rest →
        (doubleLoop alnum rounds q').word.Plain ∧ (doubleLoop alnum rounds q').rest <:+ q.rest := by
      intro q' hw' hr'
      obtain ⟨h1, h2⟩ := ih q' hw' (hq.suffix hr')
      exact ⟨h1, h2.trans hr'⟩
    unfold doubleLoop
    rcases hr : q.rest with _ | ⟨c, cs⟩
    · exact ⟨hw, List.suffix_rfl⟩
    · rw [hr] at on hq
      have hcs : cs <:+ c :: cs := List.suffix_cons c cs
      have hdollar : c ≠ '$' := fun h => hq c List.mem_cons_self (h ▸ by decide)
      have htick : c ≠ '`' := fun h => hq c List.mem_cons_self (h ▸ by decide)
      simp only
      by_cases hclose : c = '"'
      · rw [if_pos hclose]
        exact ⟨hw.pushRaw _, hcs⟩
      rw [if_neg hclose]
      by_cases hescape : c = '\\'
      · rw [if_pos hescape]
        rcases cs with _ | ⟨next, after⟩
        · exact on _ (hw.push _ _) hcs
        · have hafter : after <:+ c :: next :: after := (List.suffix_cons next after).trans hcs
          simp only
          split_ifs
          · exact on _ (hw.push _ _) hafter
          · exact on _ hw hafter
          · exact on _ (hw.push _ _) hcs
      · rw [if_neg hescape, if_neg (by simp [hdollar]), if_neg hdollar, if_neg htick]
        exact on _ (hw.push _ _) hcs

namespace Lexer

theorem Quiet.read {l : Lexer} (h : l.Quiet) (alnum : Char → Bool) {c : Char} {cs : Text} (hr : l.rest = c :: cs) :
    (l.read alnum c cs).Quiet ∧ l.command.words <+: (l.read alnum c cs).command.words := by
  have hc : c ∉ shellOperators := h.rest c (hr ▸ List.mem_cons_self)
  have hcs : cs <:+ l.rest := hr ▸ List.suffix_cons c cs
  simp only [shellOperators, List.mem_cons, List.not_mem_nil, or_false, not_or] at hc
  obtain ⟨hsemicolon, hand, hpipe, htick, hdollar, hgreater, hless, hopen, hclose, hnewline, hreturn⟩ := hc
  unfold Lexer.read
  by_cases hblank : c = ' ' ∨ c = '\t' ∨ c = '\r'
  · rw [if_pos hblank]
    refine ⟨h.finish.skip ?_, ?_⟩
    · rwa [finishWord_rest]
    · show l.command.words <+: l.finishWord.command.words
      rw [finishWord_of_pending h.pending]
      exact List.prefix_append _ _
  rw [if_neg hblank, if_neg hnewline]
  by_cases hcomment : c = '#' ∧ l.word = none
  · rw [if_pos hcomment]
    exact ⟨h.skip ((List.dropWhile_suffix _).trans hcs), List.prefix_rfl⟩
  rw [if_neg hcomment]
  by_cases hescape : c = '\\'
  · rw [if_pos hescape]
    rcases cs with _ | ⟨next, after⟩
    · exact ⟨h.onward (h.word.pushRaw _) hcs _, List.prefix_rfl⟩
    · have hafter : after <:+ l.rest := (List.suffix_cons next after).trans hcs
      unfold escape
      simp only
      split_ifs
      · exact ⟨h.skip hafter, List.prefix_rfl⟩
      · exact ⟨h.onward (h.word.push _ _) hafter _, List.prefix_rfl⟩
  rw [if_neg hescape]
  by_cases hsingle : c = '\''
  · rw [if_pos hsingle]
    have hafter := (List.tail_suffix (cs.dropWhile (· != '\''))).trans (List.dropWhile_suffix _)
    exact ⟨h.onward (h.word.written _ _) (hafter.trans hcs) _, List.prefix_rfl⟩
  rw [if_neg hsingle]
  by_cases hdouble : c = '"'
  · rw [if_pos hdouble]
    obtain ⟨hword, hafter⟩ := doubleLoop_plain alnum (cs.length + 1)
      { word := (l.word.getD .empty).pushRaw ['"'], rest := cs, unclosed := l.out.unclosed }
      (h.word.pushRaw _) (h.rest.suffix hcs)
    exact ⟨h.onward hword (hafter.trans hcs) _, List.prefix_rfl⟩
  rw [if_neg hdouble, if_neg hdollar, if_neg htick, if_neg hpipe, if_neg hand, if_neg hsemicolon,
    if_neg (by simp [hopen, hclose]), if_neg (by simp [hless, hgreater]), if_neg (by simp [hless, hgreater])]
  exact ⟨h.onward (h.word.push _ _) hcs _, List.prefix_rfl⟩

theorem Quiet.run (alnum : Char → Bool) : ∀ (rounds : ℕ) {l : Lexer}, l.Quiet →
    (l.run alnum rounds).Quiet ∧ l.command.words <+: (l.run alnum rounds).command.words := by
  intro rounds
  induction rounds with
  | zero => intro l h; exact ⟨h, List.prefix_rfl⟩
  | succ rounds ih =>
    intro l h
    unfold Lexer.run
    rcases hr : l.rest with _ | ⟨c, cs⟩
    · exact ⟨h, List.prefix_rfl⟩
    · obtain ⟨hread, hwords⟩ := h.read alnum hr
      obtain ⟨hrun, hmore⟩ := ih hread
      exact ⟨hrun, hwords.trans hmore⟩

end Lexer

/-! ## The first words -/

namespace Lexer

def current (l : Lexer) : Text := (l.word.getD .empty).value

theorem read_ordinary (alnum : Char → Bool) (l : Lexer) {c : Char} (cs : Text) (hblank : isBlank c = false)
    (hoperator : c ∉ shellOperators) (hspecial : c ∉ shellWordSpecials) :
    l.read alnum c cs = { l.onWord (fun w => w.push c [c]) with rest := cs } := by
  simp only [isBlank, Bool.or_eq_false_iff, beq_eq_false_iff_ne, ne_eq] at hblank
  simp only [shellOperators, List.mem_cons, List.not_mem_nil, or_false, not_or] at hoperator
  simp only [shellWordSpecials, List.mem_cons, List.not_mem_nil, or_false, not_or] at hspecial
  obtain ⟨hspace, htab⟩ := hblank
  obtain ⟨hsemicolon, hand, hpipe, htick, hdollar, hgreater, hless, hopen, hclose, hnewline, hreturn⟩ := hoperator
  obtain ⟨hsingle, hdouble, hescape, -, -, -, -, -, -, -, hcomment⟩ := hspecial
  unfold read
  rw [if_neg (by simp [hspace, htab, hreturn]), if_neg hnewline, if_neg (by simp [hcomment]), if_neg hescape,
    if_neg hsingle, if_neg hdouble, if_neg hdollar, if_neg htick, if_neg hpipe, if_neg hand, if_neg hsemicolon,
    if_neg (by simp [hopen, hclose]), if_neg (by simp [hless, hgreater]), if_neg (by simp [hless, hgreater])]

theorem Quiet.values_mono {l : Lexer} (h : l.Quiet) (alnum : Char → Bool) (rounds : ℕ) :
    l.command.words.map Word.value <+: (l.run alnum rounds).finishWord.command.words.map Word.value := by
  obtain ⟨hrun, hwords⟩ := h.run alnum rounds
  rw [finishWord_of_pending hrun.pending]
  exact (hwords.trans (List.prefix_append _ _)).map _

/-- The induction is on the text that is left, and `current` is the part of the next word that was read already.  While
words of the rule remain, every character read is a blank or belongs to one of them, so it stands for itself. -/
theorem Quiet.first_words (alnum : Char → Bool) : ∀ (rest : Text) {l : Lexer} (words : List Text) (rounds : ℕ), l.Quiet →
    l.rest = rest → rest.length ≤ rounds → (∀ c ∈ l.current, isBlank c = false) → (l.current = [] → l.word = none) →
    (∀ word ∈ words, ∀ c ∈ word, c ∉ shellWordSpecials) → words <+: shellWords (l.current ++ rest) →
    l.command.words.map Word.value ++ words <+: (l.run alnum rounds).finishWord.command.words.map Word.value := by
  intro rest
  induction rest with
  | nil =>
    intro l words rounds h hrest _ hcurrent hnone _ hwords
    have hrun : l.run alnum rounds = l := by
      rcases rounds with _ | rounds
      · rfl
      · unfold Lexer.run
        simp only [hrest]
    rw [hrun, finishWord_of_pending h.pending, List.map_append]
    refine (List.prefix_append_right_inj _).mpr ?_
    rw [List.append_nil] at hwords
    by_cases hempty : l.current = []
    · rw [hempty, shellWords_nil] at hwords
      rw [List.prefix_nil.mp hwords]
      exact List.nil_prefix
    · rw [shellWords_single hcurrent hempty] at hwords
      rcases hw : l.word with _ | w
      · exact absurd (by simp [current, hw, Word.empty]) hempty
      · simpa [current, hw] using hwords
  | cons c cs ih =>
    intro l words rounds h hrest hrounds hcurrent hnone hplain hwords
    rcases words with _ | ⟨word, words⟩
    · rw [List.append_nil]
      exact h.values_mono alnum rounds
    rcases rounds with _ | rounds
    · simp at hrounds
    have hlength : cs.length ≤ rounds := by simpa using hrounds
    obtain ⟨hread, -⟩ := h.read alnum hrest
    have hrun : l.run alnum (rounds + 1) = (l.read alnum c cs).run alnum rounds := by
      rw [Lexer.run]
      simp only [hrest]
    rw [hrun]
    by_cases hblank : isBlank c = true
    · -- A blank ends the word.
      have hl : l.read alnum c cs = { l.finishWord with rest := cs } := by
        unfold Lexer.read
        simp only [isBlank, Bool.or_eq_true, beq_iff_eq] at hblank
        rw [if_pos (by rcases hblank with hc | hc <;> simp [hc])]
      rw [hl, finishWord_of_pending h.pending] at hread ⊢
      rw [shellWords_blank hblank] at hwords
      by_cases hempty : l.current = []
      · rw [hempty, shellWords_nil, List.nil_append] at hwords
        have hword := hnone hempty
        have := ih (word :: words) rounds hread rfl hlength (by simp [current, Word.empty]) (fun _ => rfl) hplain
          (by simpa [current, Word.empty] using hwords)
        simpa [hword] using this
      · rw [shellWords_single hcurrent hempty, List.singleton_append, List.cons_prefix_cons] at hwords
        obtain ⟨rfl, hwords⟩ := hwords
        have := ih words rounds hread rfl hlength (by simp [current, Word.empty]) (fun _ => rfl)
          (fun w hw => hplain w (List.mem_cons_of_mem _ hw)) (by simpa [current, Word.empty] using hwords)
        rcases hw : l.word with _ | w
        · exact absurd (by simp [current, hw, Word.empty]) hempty
        · simpa [current, hw] using this
    · -- Anything else is a character of the word that comes next.
      have hnext : ∀ d ∈ l.current ++ [c], isBlank d = false := by
        intro d hd
        rcases List.mem_append.mp hd with hd | hd
        · exact hcurrent d hd
        · rw [List.mem_singleton.mp hd]
          simpa using hblank
      have hsplit : l.current ++ c :: cs = l.current ++ [c] ++ cs := by simp
      have hspecial : c ∉ shellWordSpecials := by
        obtain ⟨z, after, hhead⟩ := shellWords_head hnext (by simp) cs
        rw [hsplit, hhead, List.cons_prefix_cons] at hwords
        refine hplain word List.mem_cons_self c ?_
        rw [hwords.1]
        simp
      have hoperator : c ∉ shellOperators := h.rest c (hrest ▸ List.mem_cons_self)
      have hl := read_ordinary alnum l cs (by simpa using hblank) hoperator hspecial
      rw [hl] at hread ⊢
      have hcur : current { l.onWord (fun w => w.push c [c]) with rest := cs } = l.current ++ [c] := rfl
      refine ih (word :: words) rounds hread rfl hlength ?_ ?_ hplain ?_
      · rw [hcur]
        exact hnext
      · rw [hcur]
        simp
      · rw [hcur, ← hsplit]
        exact hwords

theorem Quiet.finishPipeline {l : Lexer} (h : l.Quiet) (hwords : l.finishWord.command.words ≠ []) :
    l.finishPipeline.readHeredocBodies.out.pipelines = [[l.finishWord.command]] := by
  have hfinish := h.finish
  have hcommand : l.finishCommand = { l.finishWord with command := .empty, pipeline := [l.finishWord.command] } := by
    unfold finishCommand
    simp only
    rw [if_neg fun hnone => hwords hnone.1]
    simp [hfinish.awaiting, hfinish.pipeline, hfinish.command.waiting, hfinish.pending]
  unfold Lexer.finishPipeline readHeredocBodies
  simp [hcommand, hfinish.awaiting, hfinish.pipelines]

end Lexer

theorem commandHasPrefix_iff {command start : Text} : commandHasPrefix command start = true ↔
    NoOperators command ∧ hasOddWhitespace command = false ∧ prefixWordsArePlain start = true ∧
      shellWords start ≠ [] ∧ shellWords start <+: shellWords command := by
  unfold commandHasPrefix
  have hop : command.any shellOperators.contains = false ↔ NoOperators command := by
    simp [NoOperators]
  by_cases h1 : command.any shellOperators.contains = true ∨ hasOddWhitespace command = true
  · rw [if_pos (by simpa using h1)]
    constructor
    · intro h
      exact absurd h Bool.false_ne_true
    · rintro ⟨hno, hodd, -⟩
      rw [← hop] at hno
      rcases h1 with h1 | h1
      · exact absurd h1 (by simp [hno])
      · exact absurd h1 (by simp [hodd])
  · rw [if_neg (by simpa using h1)]
    rw [not_or, Bool.not_eq_true, Bool.not_eq_true] at h1
    rw [← hop]
    by_cases h2 : prefixWordsArePlain start = true
    · simp only [h1.1, h1.2, h2, Bool.not_true, Bool.false_eq_true, if_false, true_and, Bool.and_eq_true,
        Bool.not_eq_true', List.isEmpty_eq_false_iff, decide_eq_true_eq, beq_iff_eq, and_assoc]
      refine and_congr_right fun _ => ?_
      constructor
      · rintro ⟨-, h⟩
        exact h ▸ List.take_prefix _ _
      · intro h
        exact ⟨h.length_le, (List.prefix_iff_eq_take.mp h).symm⟩
    · simp [h2]

/-- **A command-prefix rule approves one plain command.**  To the lexer, a command that the rule matches is one pipeline of
one command with words only; none of its words is expanded; and its first words are, after quotes are removed, the words
of the rule. -/
theorem prefix_rule_covers_one_plain_command (alnum : Char → Bool) (command start : Text)
    (h : commandHasPrefix command start = true) :
    ∃ c : Command, (lex alnum command).pipelines = [[c]] ∧
      c.redirects = [] ∧ c.heredocs = [] ∧ c.hereStrings = [] ∧
      (∀ w ∈ c.words, w.dynamic = false ∧ w.substitutions = []) ∧
      shellWords start <+: c.words.map Word.value := by
  obtain ⟨hoperators, -, hplain, hne, hwords⟩ := commandHasPrefix_iff.mp h
  have hquiet := Lexer.quiet_start hoperators
  obtain ⟨hrun, -⟩ := hquiet.run alnum command.length
  have hspecials : ∀ word ∈ shellWords start, ∀ c ∈ word, c ∉ shellWordSpecials := by
    unfold prefixWordsArePlain at hplain
    simp only [Bool.and_eq_true, List.all_eq_true, Bool.not_eq_true', List.any_eq_false,
      List.contains_iff_mem] at hplain
    exact hplain.2
  have hfirst := hquiet.first_words alnum command (shellWords start) command.length rfl le_rfl
    (fun _ hc => absurd hc List.not_mem_nil) (fun _ => rfl) hspecials hwords
  have hmap : shellWords start <+: ((Lexer.start command).run alnum command.length).finishWord.command.words.map Word.value :=
    hfirst
  have hsome : ((Lexer.start command).run alnum command.length).finishWord.command.words ≠ [] := by
    intro hnil
    rw [hnil, List.map_nil] at hmap
    exact hne (List.prefix_nil.mp hmap)
  have hcommand := hrun.finish.command
  exact ⟨_, hrun.finishPipeline hsome, hcommand.redirects, hcommand.heredocs, hcommand.hereStrings, hcommand.words, hmap⟩

/-- A trailing backslash, an open quote and a comment sign do not matter. -/
theorem prefix_rule_at_git_status : ∃ c : Command,
    (lex Char.isAlphanum "git  status 'a \\\"b # \\".toList).pipelines = [[c]] ∧
      c.redirects = [] ∧ c.heredocs = [] ∧ c.hereStrings = [] ∧
      (∀ w ∈ c.words, w.dynamic = false ∧ w.substitutions = []) ∧
      shellWords "git status".toList <+: c.words.map Word.value :=
  prefix_rule_covers_one_plain_command Char.isAlphanum _ _ (by decide)

end AnimaCore.ShellLex
