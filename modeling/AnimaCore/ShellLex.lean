import AnimaCore.Base

/-!
# AnimaCore.ShellLex — the shell lexer of the autonomy floor

`approvals/shell_lex.rs`: a command line as pipelines of simple commands, with quotes and escapes undone, and with the
texts of its substitutions kept aside.

* A text is the list of its characters.  The index `i` of the source is the rest of the text from there.
* The loops take a bound on their rounds; each round of the main loop reads at least one character (`read_shrinks`), so
  the length of the text is enough (`run_reads_all`).
* `alnum` is `char::is_alphanumeric`, which reads the Unicode tables.
-/

namespace AnimaCore.ShellLex

/-- The characters of a text. -/
abbrev Text := List Char

/-! ## Commands -/

structure Word where
  value : Text
  raw : Text
  dynamic : Bool
  substitutions : List Text
  deriving DecidableEq, Repr

/-- `Word::default`. -/
def Word.empty : Word := { value := [], raw := [], dynamic := false, substitutions := [] }

structure Redirect where
  op : String
  target : Text
  deriving DecidableEq, Repr

structure Heredoc where
  body : Text
  expands : Bool
  deriving DecidableEq, Repr

/-- A heredoc whose body is still to come: its delimiter, whether tabs are stripped and whether it was quoted. -/
structure Delimiter where
  delimiter : Text
  stripTabs : Bool
  quoted : Bool
  deriving DecidableEq, Repr

structure Command where
  words : List Word
  redirects : List Redirect
  heredocs : List Heredoc
  hereStrings : List Word
  waiting : List Delimiter
  deriving DecidableEq, Repr

/-- `Command::default`. -/
def Command.empty : Command := { words := [], redirects := [], heredocs := [], hereStrings := [], waiting := [] }

structure Lexed where
  pipelines : List (List Command)
  unclosed : Bool
  deriving DecidableEq, Repr

/-- `Pending`: what the next word is. -/
inductive Pending
  | target (op : String)
  | hereDelimiter (stripTabs : Bool)
  | hereString
  deriving DecidableEq, Repr

structure Lexer where
  rest : Text
  out : Lexed
  pipeline : List Command
  command : Command
  word : Option Word
  pending : Option Pending
  awaiting : List (ℕ × ℕ × Delimiter)
  deriving DecidableEq, Repr

/-! ## Words -/

/-- `push`, on the word. -/
def Word.push (w : Word) (value : Char) (raw : Text) : Word := { w with value := w.value ++ [value], raw := w.raw ++ raw }

/-- `word.raw.push_str`. -/
def Word.pushRaw (w : Word) (raw : Text) : Word := { w with raw := w.raw ++ raw }

/-- A substitution as it stands in the word; the body of an arithmetic expansion is not kept. -/
def Word.substitute (w : Word) (written body : Text) (keep : Bool) : Word :=
  { value := w.value ++ written, raw := w.raw ++ written, dynamic := true
    substitutions := if keep then w.substitutions ++ [body] else w.substitutions }

def Command.place (c : Command) (pending : Option Pending) (w : Word) : Command :=
  match pending with
  | some (.target op) => { c with redirects := c.redirects ++ [{ op, target := w.value }] }
  | some (.hereDelimiter stripTabs) =>
    let quoted := w.raw.any fun c => c == '\'' || c == '"' || c == '\\'
    { c with waiting := c.waiting ++ [{ delimiter := w.value, stripTabs, quoted }] }
  | some .hereString => { c with hereStrings := c.hereStrings ++ [w] }
  | none => { c with words := c.words ++ [w] }

namespace Lexer

/-- `self.word()` and what is done to it. -/
def onWord (l : Lexer) (f : Word → Word) : Lexer := { l with word := some (f (l.word.getD .empty)) }

def finishWord (l : Lexer) : Lexer :=
  match l.word with
  | none => l
  | some w => { l with command := l.command.place l.pending w, word := none, pending := none }

def finishCommand (l : Lexer) : Lexer :=
  let l := { l.finishWord with pending := none }
  if l.command.words = [] ∧ l.command.redirects = [] ∧ l.command.waiting = [] ∧ l.command.hereStrings = [] then
    { l with command := .empty }
  else
    { l with
      command := .empty
      awaiting := l.awaiting ++ l.command.waiting.map fun d => (l.out.pipelines.length, l.pipeline.length, d)
      pipeline := l.pipeline ++ [l.command] }

def finishPipeline (l : Lexer) : Lexer :=
  let l := l.finishCommand
  if l.pipeline = [] then l
  else { l with out := { l.out with pipelines := l.out.pipelines ++ [l.pipeline] }, pipeline := [] }

end Lexer

/-! ## Heredocs -/

/-- The loop over the lines of a body: the lines before the delimiter and the text after it. -/
def heredocLines (d : Delimiter) : ℕ → Text → List Text × Text
  | 0, rest => ([], rest)
  | _, [] => ([], [])
  | rounds + 1, rest =>
    let line := rest.takeWhile (· != '\n')
    let after := (rest.dropWhile (· != '\n')).tail
    let line := if d.stripTabs then line.dropWhile (· == '\t') else line
    if line = d.delimiter then ([], after)
    else
      let (lines, after) := heredocLines d rounds after
      (line :: lines, after)

/-- The heredoc for the command it was opened in. -/
def Lexed.addHeredoc (out : Lexed) (pipeline command : ℕ) (h : Heredoc) : Lexed :=
  { out with
    pipelines := out.pipelines.modify pipeline fun commands =>
      commands.modify command fun c => { c with heredocs := c.heredocs ++ [h] } }

/-- One round of `Lexer::read_heredoc_bodies`. -/
def Lexer.readHeredoc (l : Lexer) (awaited : ℕ × ℕ × Delimiter) : Lexer :=
  let (pipeline, command, d) := awaited
  let (lines, rest) := heredocLines d (l.rest.length + 1) l.rest
  { l with
    rest
    out := l.out.addHeredoc pipeline command { body := ['\n'].intercalate lines, expands := !d.quoted } }

def Lexer.readHeredocBodies (l : Lexer) : Lexer := l.awaiting.foldl Lexer.readHeredoc { l with awaiting := [] }

/-! ## Substitutions -/

/-- What a substitution reads: its body, the text after it, and whether it was never closed. -/
structure Body where
  body : Text
  rest : Text
  unclosed : Bool
  deriving DecidableEq, Repr

/-- The loop of `Lexer::read_parens`; `body` is what was read so far. -/
def readParensLoop (depth : ℕ) (single double : Bool) (body : Text) : Text → Body
  | [] => { body, rest := [], unclosed := true }
  | c :: cs =>
    if c = '\\' ∧ single = false then
      match cs with
      | [] => { body := body ++ [c], rest := [], unclosed := true }
      | d :: cs => readParensLoop depth single double (body ++ [c, d]) cs
    else if c = '\'' ∧ double = false then readParensLoop depth (!single) double (body ++ [c]) cs
    else if c = '"' ∧ single = false then readParensLoop depth single (!double) (body ++ [c]) cs
    else if c = '(' ∧ single = false ∧ double = false then readParensLoop (depth + 1) single double (body ++ [c]) cs
    else if c = ')' ∧ single = false ∧ double = false then
      if depth = 1 then { body, rest := cs, unclosed := false }
      else readParensLoop (depth - 1) single double (body ++ [c]) cs
    else readParensLoop depth single double (body ++ [c]) cs

def readParens (text : Text) : Body := readParensLoop 1 false false [] text

/-- The loop of `Lexer::read_backticks`. -/
def readBackticksLoop (body : Text) : Text → Body
  | [] => { body, rest := [], unclosed := true }
  | c :: cs =>
    if c = '\\' ∧ cs.head? = some '`' then
      match cs with
      | [] => { body, rest := [], unclosed := true }
      | _ :: cs => readBackticksLoop (body ++ ['`']) cs
    else if c = '`' then { body, rest := cs, unclosed := false }
    else readBackticksLoop (body ++ [c]) cs

def readBackticks (text : Text) : Body := readBackticksLoop [] text

/-- How `$( … )` stands in a word. -/
def dollarParens (body : Text) : Text := '$' :: '(' :: body ++ [')']

/-- How a backtick substitution stands in a word. -/
def backticked (body : Text) : Text := '`' :: body ++ ['`']

/-- Whether `$` before this character starts an expansion. -/
def expands (alnum : Char → Bool) : Option Char → Bool
  | none => false
  | some next => alnum next || "_\x7b@*#?!-$".toList.contains next

/-! ## Quotes -/

/-- A word in a quoted text: the word, the text after it, and whether the quote was never closed. -/
structure Quoted where
  word : Word
  rest : Text
  unclosed : Bool
  deriving DecidableEq, Repr

/-- The loop of `Lexer::double_quoted`. -/
def doubleLoop (alnum : Char → Bool) : ℕ → Quoted → Quoted
  | 0, q => { q with unclosed := true }
  | rounds + 1, q =>
    match q.rest with
    | [] => { q with unclosed := true }
    | c :: cs =>
      if c = '"' then { q with word := q.word.pushRaw ['"'], rest := cs }
      else if c = '\\' then
        match cs with
        | [] => doubleLoop alnum rounds { q with word := q.word.push '\\' ['\\'], rest := [] }
        | next :: after =>
          if next = '$' ∨ next = '`' ∨ next = '"' ∨ next = '\\' then
            doubleLoop alnum rounds { q with word := q.word.push next ['\\', next], rest := after }
          else if next = '\n' then doubleLoop alnum rounds { q with rest := after }
          else doubleLoop alnum rounds { q with word := q.word.push '\\' ['\\'], rest := cs }
      else if c = '$' ∧ cs.head? = some '(' then
        let b := readParens cs.tail
        let arithmetic := cs.tail.head? == some '('
        doubleLoop alnum rounds
          { word := q.word.substitute (dollarParens b.body) b.body (!arithmetic), rest := b.rest
            unclosed := q.unclosed || b.unclosed }
      else if c = '$' then
        let word := if expands alnum cs.head? then { q.word with dynamic := true } else q.word
        doubleLoop alnum rounds { q with word := word.push '$' ['$'], rest := cs }
      else if c = '`' then
        let b := readBackticks cs
        doubleLoop alnum rounds
          { word := q.word.substitute (backticked b.body) b.body true, rest := b.rest
            unclosed := q.unclosed || b.unclosed }
      else doubleLoop alnum rounds { q with word := q.word.push c [c], rest := cs }

/-- `u32::from_str_radix` of digits that were checked, and `char::from_u32`. -/
def charOfDigits (radix : ℕ) (digits : Text) : Option Char :=
  if digits = [] then none
  else
    let n := digits.foldl (fun n d => n * radix + (if d.isDigit then d.toNat - '0'.toNat
      else if 'a' ≤ d then d.toNat - 'a'.toNat + 10 else d.toNat - 'A'.toNat + 10)) 0
    if n < 0xD800 ∨ (0xE000 ≤ n ∧ n < 0x110000) then some (Char.ofNat n) else none

def isAsciiHexdigit (c : Char) : Bool := c.isDigit || ('a' ≤ c && c ≤ 'f') || ('A' ≤ c && c ≤ 'F')

/-- The escape of `$'…'` that starts with a backslash: the character it stands for and how many characters it takes. -/
def ansiEscape (after : Text) : Option Char × ℕ :=
  let escape := after.head?.getD '\\'
  if escape = 'n' then (some '\n', 2)
  else if escape = 't' then (some '\t', 2)
  else if escape = 'r' then (some '\r', 2)
  else if escape = 'e' then (some (Char.ofNat 0x1b), 2)
  else if escape = 'a' then (some (Char.ofNat 0x7), 2)
  else if escape = 'b' then (some (Char.ofNat 0x8), 2)
  else if escape = 'f' then (some (Char.ofNat 0xc), 2)
  else if escape = 'v' then (some (Char.ofNat 0xb), 2)
  else if escape = 'x' ∨ escape = 'u' then
    let digits := (after.tail.take (if escape = 'x' then 2 else 4)).takeWhile isAsciiHexdigit
    (charOfDigits 16 digits, 2 + digits.length)
  else if '0' ≤ escape ∧ escape ≤ '7' then
    let digits := (after.take 3).takeWhile fun d => '0' ≤ d && d ≤ '7'
    (charOfDigits 8 digits, 1 + digits.length)
  else (some escape, 2)

/-- The loop of `Lexer::ansi_c_quoted`. -/
def ansiLoop : ℕ → Quoted → Quoted
  | 0, q => { q with unclosed := true }
  | rounds + 1, q =>
    match q.rest with
    | [] => { q with unclosed := true }
    | c :: cs =>
      if c = '\'' then { q with word := q.word.pushRaw ['\''], rest := cs }
      else if c ≠ '\\' then ansiLoop rounds { q with word := q.word.push c [c], rest := cs }
      else
        let (decoded, used) := ansiEscape cs
        let raw := (c :: cs).take used
        let word :=
          match decoded with
          | some d => q.word.push d raw
          | none => q.word.pushRaw raw
        ansiLoop rounds { q with word, rest := (c :: cs).drop used }

namespace Lexer

/-- A quoted text, read by `loop` from `rest`. -/
def quoted (l : Lexer) (opening : Text) (rest : Text) (loop : ℕ → Quoted → Quoted) : Lexer :=
  let q := loop (rest.length + 1) { word := (l.word.getD .empty).pushRaw opening, rest, unclosed := l.out.unclosed }
  { l with word := some q.word, rest := q.rest, out := { l.out with unclosed := q.unclosed } }

/-- `Lexer::single_quoted`; `cs` is the text after the quote. -/
def singleQuoted (l : Lexer) (cs : Text) : Lexer :=
  let value := cs.takeWhile (· != '\'')
  let after := cs.dropWhile (· != '\'')
  let l := l.onWord fun w => { w with value := w.value ++ value, raw := w.raw ++ '\'' :: value ++ after.take 1 }
  { l with rest := after.tail, out := { l.out with unclosed := l.out.unclosed || after.isEmpty } }

/-! ## The loop -/

def escape (l : Lexer) (cs : Text) : Lexer :=
  match cs with
  | [] => { l.onWord (fun w => w.pushRaw ['\\']) with rest := [] }
  | next :: after =>
    if next = '\n' then { l with rest := after }
    else { l.onWord (fun w => w.push next ['\\', next]) with rest := after }

def substitution (l : Lexer) (b : Body) (written : Text) (keep : Bool) : Lexer :=
  let l := l.onWord fun w => w.substitute written b.body keep
  { l with rest := b.rest, out := { l.out with unclosed := l.out.unclosed || b.unclosed } }

/-- What a redirect operator waits for, and its length. -/
def redirectOp (c : Char) (next after : Option Char) : Pending × ℕ :=
  if c = '<' ∧ next = some '<' ∧ after = some '<' then (.hereString, 3)
  else if c = '<' ∧ next = some '<' ∧ after = some '-' then (.hereDelimiter true, 3)
  else if c = '<' ∧ next = some '<' then (.hereDelimiter false, 2)
  else if c = '<' ∧ next = some '&' then (.target "<&", 2)
  else if c = '<' ∧ next = some '>' then (.target "<>", 2)
  else if c = '<' then (.target "<", 1)
  else if c = '>' ∧ next = some '>' then (.target ">>", 2)
  else if c = '>' ∧ next = some '&' then (.target ">&", 2)
  else if c = '>' ∧ next = some '|' then (.target ">|", 2)
  else (.target ">", 1)

/-- `Lexer::redirect`: a word of digits right before the operator is a file descriptor. -/
def redirect (l : Lexer) (c : Char) (cs : Text) : Lexer :=
  let descriptor := l.word.any fun w => !w.raw.isEmpty && w.raw.all Char.isDigit
  let l := if descriptor then { l with word := none } else l.finishWord
  let (pending, length) := redirectOp c cs.head? cs.tail.head?
  { l with pending := some pending, rest := (c :: cs).drop length }

/-- `|`. -/
def pipe (l : Lexer) (cs : Text) : Lexer :=
  if cs.head? = some '|' then { l.finishPipeline with rest := cs.tail }
  else if cs.head? = some '&' then { l.finishCommand with rest := cs.tail }
  else { l.finishCommand with rest := cs }

/-- `&`. -/
def ampersand (l : Lexer) (cs : Text) : Lexer :=
  if cs.head? = some '&' then { l.finishPipeline with rest := cs.tail }
  else if cs.head? = some '>' then
    let append := cs.tail.head? == some '>'
    { l.finishWord with
      pending := some (.target (if append then "&>>" else "&>")), rest := cs.drop (if append then 2 else 1) }
  else { l.finishPipeline with rest := cs }

/-- `;`. -/
def semicolon (l : Lexer) (cs : Text) : Lexer :=
  { l.finishPipeline with rest := if cs.head? = some ';' ∨ cs.head? = some '&' then cs.tail else cs }

/-- `$`. -/
def dollar (l : Lexer) (alnum : Char → Bool) (cs : Text) : Lexer :=
  if cs.head? = some '\'' then l.quoted ['$', '\''] cs.tail ansiLoop
  else if cs.head? = some '(' then
    let b := readParens cs.tail
    l.substitution b (dollarParens b.body) !(cs.tail.head? == some '(')
  else
    let l := if expands alnum cs.head? then l.onWord fun w => { w with dynamic := true } else l
    { l.onWord (fun w => w.push '$' ['$']) with rest := cs }

/-- One round of the loop of `Lexer::run`, at the character `c`. -/
def read (alnum : Char → Bool) (l : Lexer) (c : Char) (cs : Text) : Lexer :=
  if c = ' ' ∨ c = '\t' ∨ c = '\r' then { l.finishWord with rest := cs }
  else if c = '\n' then ({ l.finishPipeline with rest := cs } : Lexer).readHeredocBodies
  else if c = '#' ∧ l.word = none then { l with rest := cs.dropWhile (· != '\n') }
  else if c = '\\' then l.escape cs
  else if c = '\'' then l.singleQuoted cs
  else if c = '"' then l.quoted ['"'] cs (doubleLoop alnum)
  else if c = '$' then l.dollar alnum cs
  else if c = '`' then
    let b := readBackticks cs
    l.substitution b (backticked b.body) true
  else if c = '|' then l.pipe cs
  else if c = '&' then l.ampersand cs
  else if c = ';' then l.semicolon cs
  else if c = '(' ∨ c = ')' then { l.finishPipeline with rest := cs }
  else if (c = '<' ∨ c = '>') ∧ cs.head? = some '(' then
    let b := readParens cs.tail
    l.substitution b (c :: '(' :: b.body ++ [')']) true
  else if c = '<' ∨ c = '>' then l.redirect c cs
  else { l.onWord (fun w => w.push c [c]) with rest := cs }

/-- The loop of `Lexer::run`. -/
def run (alnum : Char → Bool) : ℕ → Lexer → Lexer
  | 0, l => l
  | rounds + 1, l =>
    match l.rest with
    | [] => l
    | c :: cs => run alnum rounds (l.read alnum c cs)

def start (text : Text) : Lexer :=
  { rest := text, out := { pipelines := [], unclosed := false }, pipeline := [], command := .empty, word := none
    pending := none, awaiting := [] }

end Lexer

def lex (alnum : Char → Bool) (text : Text) : Lexed :=
  ((Lexer.run alnum text.length (Lexer.start text)).finishPipeline).readHeredocBodies.out

/-! ## The bound on the rounds

Every reader hands on a part of the text it was given. -/

theorem readParensLoop_shrinks : ∀ (text : Text) (depth : ℕ) (single double : Bool) (body : Text),
    (readParensLoop depth single double body text).rest.length ≤ text.length := by
  intro text
  induction text using List.twoStepInduction with
  | nil => intro depth single double body; simp [readParensLoop]
  | singleton c =>
    intro depth single double body
    unfold readParensLoop
    split_ifs <;> simp [readParensLoop]
  | cons_cons c d cs ih1 ih2 =>
    intro depth single double body
    have h1 := fun depth single double body => Nat.le_succ_of_le (ih2 d depth single double body)
    unfold readParensLoop
    split_ifs
    · have := ih1 depth single double (body ++ [c, d])
      simp only [List.length_cons]
      omega
    all_goals first | exact h1 _ _ _ _ | simp

theorem readParens_shrinks (text : Text) : (readParens text).rest.length ≤ text.length :=
  readParensLoop_shrinks text 1 false false []

theorem readBackticksLoop_shrinks : ∀ (text : Text) (body : Text),
    (readBackticksLoop body text).rest.length ≤ text.length := by
  intro text
  induction text using List.twoStepInduction with
  | nil => intro body; simp [readBackticksLoop]
  | singleton c =>
    intro body
    unfold readBackticksLoop
    split_ifs <;> simp [readBackticksLoop]
  | cons_cons c d cs ih1 ih2 =>
    intro body
    unfold readBackticksLoop
    split_ifs
    · have := ih1 (body ++ ['`'])
      simp only [List.length_cons]
      omega
    · simp
    · exact Nat.le_succ_of_le (ih2 d _)

theorem readBackticks_shrinks (text : Text) : (readBackticks text).rest.length ≤ text.length :=
  readBackticksLoop_shrinks text []

theorem doubleLoop_shrinks (alnum : Char → Bool) : ∀ (rounds : ℕ) (q : Quoted),
    (doubleLoop alnum rounds q).rest.length ≤ q.rest.length := by
  intro rounds
  induction rounds with
  | zero => intro q; simp [doubleLoop]
  | succ rounds ih =>
    intro q
    -- Each branch goes on with a rest that is no longer than what was left.
    have on : ∀ q' : Quoted, q'.rest.length ≤ q.rest.length → (doubleLoop alnum rounds q').rest.length ≤ q.rest.length :=
      fun q' h => le_trans (ih q') h
    unfold doubleLoop
    rcases hr : q.rest with _ | ⟨c, cs⟩
    · simp
    · rw [hr] at on
      simp only
      have htail : cs.tail.length ≤ cs.length := by simp
      have hparens := readParens_shrinks cs.tail
      have hticks := readBackticks_shrinks cs
      split_ifs
      · simp
      · rcases cs with _ | ⟨next, after⟩
        · exact on _ (by simp)
        · simp only
          split_ifs
          · exact on _ (by simp only [List.length_cons]; omega)
          · exact on _ (by simp only [List.length_cons]; omega)
          · exact on _ (by simp)
      all_goals
        refine on _ ?_
        simp only [List.length_cons]
        omega

theorem ansiLoop_shrinks : ∀ (rounds : ℕ) (q : Quoted), (ansiLoop rounds q).rest.length ≤ q.rest.length := by
  intro rounds
  induction rounds with
  | zero => intro q; simp [ansiLoop]
  | succ rounds ih =>
    intro q
    unfold ansiLoop
    rcases hr : q.rest with _ | ⟨c, cs⟩
    · simp
    · simp only
      split_ifs
      · simp
      · exact le_trans (ih _) (by simp)
      · exact le_trans (ih _) (by simp)

theorem heredocLines_shrinks (d : Delimiter) : ∀ (rounds : ℕ) (rest : Text),
    (heredocLines d rounds rest).2.length ≤ rest.length := by
  intro rounds
  induction rounds with
  | zero => intro rest; simp [heredocLines]
  | succ rounds ih =>
    intro rest
    have hafter : ((rest.dropWhile (· != '\n')).tail).length ≤ rest.length := by
      have := (List.dropWhile_sublist (l := rest) (· != '\n')).length_le
      simp only [List.length_tail]
      omega
    rcases rest with _ | ⟨c, cs⟩
    · simp [heredocLines]
    · unfold heredocLines
      simp only
      split_ifs
      · exact hafter
      · exact le_trans (ih _) hafter
      · exact hafter
      · exact le_trans (ih _) hafter

namespace Lexer

@[simp] theorem finishWord_rest (l : Lexer) : l.finishWord.rest = l.rest := by
  unfold finishWord
  split <;> rfl

theorem readHeredocBodies_shrinks (l : Lexer) : l.readHeredocBodies.rest.length ≤ l.rest.length := by
  have fold : ∀ (awaited : List (ℕ × ℕ × Delimiter)) (l : Lexer),
      (awaited.foldl readHeredoc l).rest.length ≤ l.rest.length := by
    intro awaited
    induction awaited with
    | nil => intro l; exact le_refl _
    | cons a as ih => intro l; exact le_trans (ih _) (heredocLines_shrinks _ _ _)
  exact fold l.awaiting { l with awaiting := [] }

theorem redirectOp_length (c : Char) (next after : Option Char) : 1 ≤ (redirectOp c next after).2 := by
  unfold redirectOp
  split_ifs <;> simp

theorem ite_shrinks {p : Prop} [Decidable p] {l m : Lexer} {n : ℕ} (hl : l.rest.length ≤ n) (hm : m.rest.length ≤ n) :
    (if p then l else m).rest.length ≤ n := by
  by_cases hp : p
  · rwa [if_pos hp]
  · rwa [if_neg hp]

theorem read_shrinks (alnum : Char → Bool) (l : Lexer) (c : Char) (cs : Text) :
    (l.read alnum c cs).rest.length ≤ cs.length := by
  have htail : cs.tail.length ≤ cs.length := by simp
  have hparens := readParens_shrinks cs.tail
  unfold read
  apply ite_shrinks
  · exact le_of_eq rfl
  apply ite_shrinks
  · exact readHeredocBodies_shrinks _
  apply ite_shrinks
  · exact (List.dropWhile_sublist _).length_le
  apply ite_shrinks
  · rcases cs with _ | ⟨next, after⟩
    · exact le_of_eq rfl
    · exact ite_shrinks (Nat.le_succ _) (Nat.le_succ _)
  apply ite_shrinks
  · have := (List.dropWhile_sublist (l := cs) (· != '\'')).length_le
    show ((cs.dropWhile (· != '\'')).tail).length ≤ cs.length
    simp only [List.length_tail]
    omega
  apply ite_shrinks
  · exact doubleLoop_shrinks alnum _ _
  apply ite_shrinks
  · exact ite_shrinks (le_trans (ansiLoop_shrinks _ _) htail) (ite_shrinks (le_trans hparens htail) (le_of_eq rfl))
  apply ite_shrinks
  · exact readBackticks_shrinks cs
  apply ite_shrinks
  · exact ite_shrinks htail (ite_shrinks htail (le_of_eq rfl))
  apply ite_shrinks
  · refine ite_shrinks htail (ite_shrinks ?_ (le_of_eq rfl))
    show (cs.drop _).length ≤ cs.length
    simp
  apply ite_shrinks
  · show (if cs.head? = some ';' ∨ cs.head? = some '&' then cs.tail else cs).length ≤ cs.length
    split_ifs
    · exact htail
    · exact le_of_eq rfl
  apply ite_shrinks
  · exact le_of_eq rfl
  apply ite_shrinks
  · exact le_trans hparens htail
  apply ite_shrinks
  · have := redirectOp_length c cs.head? cs.tail.head?
    show ((c :: cs).drop (redirectOp c cs.head? cs.tail.head?).2).length ≤ cs.length
    simp only [List.length_drop, List.length_cons]
    omega
  · exact le_of_eq rfl

theorem run_reads_all (alnum : Char → Bool) : ∀ (rounds : ℕ) (l : Lexer), l.rest.length ≤ rounds →
    (run alnum rounds l).rest = [] := by
  intro rounds
  induction rounds with
  | zero =>
    intro l h
    exact List.eq_nil_of_length_eq_zero (Nat.le_zero.mp h)
  | succ rounds ih =>
    intro l h
    unfold run
    rcases hr : l.rest with _ | ⟨c, cs⟩
    · exact hr
    · have hread := read_shrinks alnum l c cs
      rw [hr, List.length_cons] at h
      exact ih _ (by omega)

end Lexer

end AnimaCore.ShellLex
