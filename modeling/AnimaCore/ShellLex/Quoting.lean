import AnimaCore.CommandPrefix
import AnimaCore.Lib.Split
import AnimaCore.ShellLex.Heredocs

/-!
# AnimaCore.ShellLex.Quoting — arguments in single quotes come back

`singleQuote` writes an argument as a POSIX word.  Inside the quotes every character stands for itself, and a quote of the
argument is written outside of them.
-/

namespace AnimaCore.ShellLex

open Lib

/-! ## Quoted arguments -/

/-- An argument in single quotes; each of its quotes ends the quoted text, stands escaped, and starts a new one. -/
def singleQuote (arg : Text) : Text :=
  '\'' :: (arg.flatMap fun c => if c = '\'' then ['\'', '\\', '\'', '\''] else [c]) ++ ['\'']

def renderArgs (args : List Text) : Text := [' '].intercalate (args.map singleQuote)

example : singleQuote "it's".toList = "'it'\\''s'".toList := by decide

variable {alnum : Char → Bool} {l : Lexer} {c : Char} {cs : Text}

theorem singleQuote_piece {x : Text} (hx : ∀ c ∈ x, (c == '\'') = false) : singleQuote x = '\'' :: x ++ ['\''] := by
  have hflat : (x.flatMap fun c => if c = '\'' then ['\'', '\\', '\'', '\''] else [c]) = x := by
    induction x with
    | nil => rfl
    | cons c x ih =>
      obtain ⟨hc, hx⟩ := List.forall_mem_cons.mp hx
      rw [List.flatMap_cons, if_neg (by simpa using hc), ih hx]
      rfl
  unfold singleQuote
  rw [hflat]

theorem singleQuote_append {x y : Text} (hx : ∀ c ∈ x, (c == '\'') = false) :
    singleQuote (x ++ '\'' :: y) = '\'' :: x ++ '\'' :: '\\' :: '\'' :: singleQuote y := by
  have hpiece := singleQuote_piece hx
  unfold singleQuote at hpiece ⊢
  have hflat : (x.flatMap fun c => if c = '\'' then ['\'', '\\', '\'', '\''] else [c]) = x :=
    List.append_cancel_right (List.cons.inj hpiece).2
  rw [List.flatMap_append, hflat, List.flatMap_cons, if_pos rfl]
  simp

/-! ## The loop, one round at a time -/

namespace Lexer

theorem run_stable (alnum : Char → Bool) (n : ℕ) : ∀ (m : ℕ) (l : Lexer), l.rest.length ≤ n → l.rest.length ≤ m →
    l.run alnum n = l.run alnum m := by
  have hnil : ∀ (n : ℕ) (l : Lexer), l.rest = [] → l.run alnum n = l := by
    intro n l hr
    rcases n with _ | n
    · rfl
    · rw [run, hr]
  induction n with
  | zero =>
    intro m l hn _
    have hr : l.rest = [] := List.eq_nil_of_length_eq_zero (Nat.le_zero.mp hn)
    rw [hnil 0 l hr, hnil m l hr]
  | succ n ih =>
    intro m l hn hm
    rcases hr : l.rest with _ | ⟨c, cs⟩
    · rw [hnil (n + 1) l hr, hnil m l hr]
    · rw [hr, List.length_cons] at hn hm
      obtain ⟨m, rfl⟩ : ∃ k, m = k + 1 := ⟨m - 1, by omega⟩
      have hshort := read_shrinks alnum l c cs
      rw [run, run, hr]
      exact ih m _ (by omega) (by omega)

def runAll (alnum : Char → Bool) (l : Lexer) : Lexer := l.run alnum l.rest.length

theorem runAll_cons (hr : l.rest = c :: cs) : l.runAll alnum = (l.read alnum c cs).runAll alnum := by
  have hshort := read_shrinks alnum l c cs
  unfold runAll
  rw [hr, List.length_cons, run, hr]
  exact run_stable alnum cs.length _ _ hshort le_rfl

theorem runAll_nil (hr : l.rest = []) : l.runAll alnum = l := by
  unfold runAll
  rw [hr]
  rfl

/-- The word has grown by `value`, and `rest` is left. -/
def grown (l : Lexer) (value raw rest : Text) : Lexer :=
  { l with
    word := some { (l.word.getD .empty) with value := (l.word.getD .empty).value ++ value, raw := raw }
    rest := rest }

theorem grown_grown (l : Lexer) (value value' raw raw' rest rest' : Text) :
    (l.grown value raw rest).grown value' raw' rest' = l.grown (value ++ value') raw' rest' := by
  unfold grown
  simp only [Option.getD_some, List.append_assoc]

theorem finishWord_grown {arg raw rest : Text} (hword : l.word = none) (hpending : l.pending = none) :
    (l.grown arg raw rest).finishWord = { l with
      command := { l.command with words := l.command.words ++ [{ Word.empty with value := arg, raw := raw }] }
      rest := rest } := by
  have hgrown : (l.grown arg raw rest).pending = none := hpending
  rw [finishWord_of_pending hgrown]
  unfold grown
  simp only [hword]
  rfl

theorem runAll_piece {x rest : Text} (hx : ∀ c ∈ x, (c == '\'') = false) (hr : l.rest = '\'' :: x ++ '\'' :: rest) :
    ∃ raw, l.runAll alnum = (l.grown x raw rest).runAll alnum := by
  have htake : (x ++ '\'' :: rest).takeWhile (· != '\'') = x := by
    rw [List.takeWhile_append_of_pos fun c hc => by simpa [bne] using hx c hc, List.takeWhile_cons_of_neg (by simp),
      List.append_nil]
  have hdrop : (x ++ '\'' :: rest).dropWhile (· != '\'') = '\'' :: rest := by
    rw [List.dropWhile_append_of_pos fun c hc => by simpa [bne] using hx c hc, List.dropWhile_cons_of_neg (by simp)]
  refine ⟨(l.word.getD .empty).raw ++ '\'' :: x ++ ['\''], ?_⟩
  rw [runAll_cons hr]
  congr 1
  show l.singleQuoted (x ++ '\'' :: rest) = _
  unfold singleQuoted onWord grown
  rw [htake, hdrop]
  simp only [List.take_succ_cons, List.take_zero, List.tail_cons, List.isEmpty_cons, Bool.or_false]

theorem runAll_escaped {rest : Text} (hr : l.rest = '\\' :: '\'' :: rest) :
    ∃ raw, l.runAll alnum = (l.grown ['\''] raw rest).runAll alnum :=
  ⟨(l.word.getD .empty).raw ++ ['\\', '\''], runAll_cons hr⟩

theorem runAll_singleQuote (arg rest : Text) : ∀ l : Lexer, l.rest = singleQuote arg ++ rest →
    ∃ raw, l.runAll alnum = (l.grown arg raw rest).runAll alnum := by
  induction arg using split_induction (p := (· == '\'')) with
  | piece x hx =>
    intro l hr
    rw [singleQuote_piece hx, List.append_assoc, List.singleton_append] at hr
    exact runAll_piece hx hr
  | more x c y hx hc ih =>
    intro l hr
    obtain rfl : c = '\'' := by simpa using hc
    rw [singleQuote_append hx, List.append_assoc, List.cons_append, List.cons_append, List.cons_append] at hr
    obtain ⟨raw, hpiece⟩ : ∃ raw, l.runAll alnum =
        (l.grown x raw ('\\' :: '\'' :: (singleQuote y ++ rest))).runAll alnum := runAll_piece hx hr
    obtain ⟨raw', hescaped⟩ : ∃ raw', (l.grown x raw ('\\' :: '\'' :: (singleQuote y ++ rest))).runAll alnum =
        ((l.grown x raw _).grown ['\''] raw' (singleQuote y ++ rest)).runAll alnum := runAll_escaped rfl
    rw [grown_grown] at hescaped
    obtain ⟨raw'', hmore⟩ := ih (l.grown (x ++ ['\'']) raw' (singleQuote y ++ rest)) rfl
    rw [grown_grown, List.append_assoc, List.singleton_append] at hmore
    exact ⟨raw'', hpiece.trans (hescaped.trans hmore)⟩

theorem runAll_renderArgs (args : List Text) : ∀ l : Lexer, args ≠ [] → l.rest = renderArgs args → l.word = none →
    l.pending = none → ∃ words : List Word, words.map Word.value = args ∧ (∀ w ∈ words, w.Plain) ∧
      (l.runAll alnum).finishWord =
        { l with command := { l.command with words := l.command.words ++ words }, rest := [] } := by
  induction args with
  | nil =>
    intro l hne
    exact absurd rfl hne
  | cons arg args ih =>
    intro l _ hr hword hpending
    rcases args with _ | ⟨next, args⟩
    · have hrest : l.rest = singleQuote arg ++ [] := by
        rw [hr, renderArgs, List.map_cons, List.map_nil, List.intercalate_singleton, List.append_nil]
      obtain ⟨raw, hrun⟩ := @runAll_singleQuote alnum arg [] l hrest
      have hnil : (l.grown arg raw []).runAll alnum = l.grown arg raw [] := runAll_nil rfl
      rw [hrun, hnil, finishWord_grown hword hpending]
      exact ⟨[{ Word.empty with value := arg, raw := raw }], rfl,
        fun w hw => List.mem_singleton.mp hw ▸ Word.plain_empty.written arg raw, rfl⟩
    · have hrest : l.rest = singleQuote arg ++ ' ' :: renderArgs (next :: args) := by
        rw [hr]
        unfold renderArgs
        rw [List.map_cons, List.map_cons, List.intercalate_cons_cons, List.append_assoc]
        rfl
      obtain ⟨raw, hrun⟩ := @runAll_singleQuote alnum arg (' ' :: renderArgs (next :: args)) l hrest
      set w : Word := { Word.empty with value := arg, raw := raw } with hw
      have hblank : (l.grown arg raw (' ' :: renderArgs (next :: args))).runAll alnum =
          ({ l with command := { l.command with words := l.command.words ++ [w] }, word := none
                    rest := renderArgs (next :: args) } : Lexer).runAll alnum := by
        rw [runAll_cons (l := l.grown arg raw (' ' :: renderArgs (next :: args))) rfl]
        congr 1
        unfold read
        rw [if_pos (.inl rfl), finishWord_grown hword hpending]
        simp only [hword, hw]
      obtain ⟨words, hvalues, hplain, hfinal⟩ := ih
        { l with command := { l.command with words := l.command.words ++ [w] }, word := none
                 rest := renderArgs (next :: args) } (List.cons_ne_nil _ _) rfl rfl hpending
      rw [hrun, hblank, hfinal]
      refine ⟨w :: words, ?_, ?_, ?_⟩
      · rw [List.map_cons, hvalues]
      · exact List.forall_mem_cons.mpr ⟨Word.plain_empty.written arg raw, hplain⟩
      · simp only [List.append_assoc, List.singleton_append, hword]

end Lexer

theorem lex_renderArgs (alnum : Char → Bool) {args : List Text} (hne : args ≠ []) :
    ∃ words : List Word, words.map Word.value = args ∧ (∀ w ∈ words, w.Plain) ∧
      lex alnum (renderArgs args) = { pipelines := [[{ Command.empty with words }]], unclosed := false } := by
  obtain ⟨words, hvalues, hplain, hfinal⟩ :=
    @Lexer.runAll_renderArgs alnum args (Lexer.start (renderArgs args)) hne rfl rfl rfl
  refine ⟨words, hvalues, hplain, ?_⟩
  have hwords : words ≠ [] := by
    rintro rfl
    exact hne hvalues.symm
  have hrun : (Lexer.start (renderArgs args)).run alnum (renderArgs args).length =
      (Lexer.start (renderArgs args)).runAll alnum := rfl
  have hcommand : ((Lexer.start (renderArgs args)).runAll alnum).finishCommand =
      { Lexer.start [] with pipeline := [{ Command.empty with words }] } := by
    unfold Lexer.finishCommand
    rw [hfinal]
    simp only
    rw [if_neg]
    · rfl
    · rintro ⟨hnone, -⟩
      exact hwords hnone
  unfold lex
  rw [hrun]
  unfold Lexer.finishPipeline
  rw [hcommand]
  rfl

/-- **The lexer undoes quoting.**  Arguments in single quotes come back as the words of one command, which has nothing
else, and nothing in them is expanded.  The lexer ends on every text, and no index and no slice is out of range.  Every
body of a heredoc is attached to the command that opened it. -/
theorem lexer_undoes_quoting (alnum : Char → Bool) :
    (∀ args : List Text, args ≠ [] → ∃ c : Command,
      lexAt alnum (renderArgs args) = some { pipelines := [[c]], unclosed := false } ∧
        c.words.map Word.value = args ∧ (∀ w ∈ c.words, w.dynamic = false ∧ w.substitutions = []) ∧
        c.redirects = [] ∧ c.heredocs = [] ∧ c.hereStrings = []) ∧
    (∀ text : Text, ∃ out, lexAt alnum text = some out ∧ Complete out.pipelines.flatten ∧
      ∃ rest, Bodies text (opened out.pipelines.flatten) (recorded out.pipelines.flatten) rest) := by
  constructor
  · intro args hne
    obtain ⟨words, hvalues, hplain, hlex⟩ := lex_renderArgs alnum hne
    exact ⟨{ Command.empty with words }, (lexAt_eq alnum _).trans (congrArg some hlex), hvalues, hplain, rfl, rfl, rfl⟩
  · intro text
    exact ⟨lex alnum text, lexAt_eq alnum text, heredocs_attached alnum text⟩

/-- Quotes, operators and an empty argument. -/
theorem lexer_undoes_quoting_note : ∃ c : Command,
    lexAt Char.isAlphanum (renderArgs ["echo".toList, "it's; rm".toList, []]) =
        some { pipelines := [[c]], unclosed := false } ∧
      c.words.map Word.value = ["echo".toList, "it's; rm".toList, []] ∧
      (∀ w ∈ c.words, w.dynamic = false ∧ w.substitutions = []) ∧
      c.redirects = [] ∧ c.heredocs = [] ∧ c.hereStrings = [] :=
  (lexer_undoes_quoting Char.isAlphanum).1 _ (by decide)

end AnimaCore.ShellLex
