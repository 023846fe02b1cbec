import AnimaCore.ShellLex

/-!
# AnimaCore.ShellLex.Indexed — the lexer with its index

`approvals/shell_lex.rs` once more, with the index `i` into the characters and the slices that the source takes.  `none`
is an index or a slice out of range, or a loop that has not ended.

`Indexed.view` is the state of the model without an index, where the rest of the text stands for the index.
-/

namespace AnimaCore.ShellLex

/-! ## Slices -/

/-- `chars[a..b]`. -/
def slice (chars : Text) (a b : ℕ) : Option Text :=
  if a ≤ b ∧ b ≤ chars.length then some ((chars.drop a).take (b - a)) else none

/-- What a reader of a substitution returns: the body, the index after it, and whether it was never closed. -/
structure Found where
  body : Text
  next : ℕ
  unclosed : Bool
  deriving DecidableEq, Repr

/-- The loop of `Lexer::read_parens`. -/
def readParensFrom (chars : Text) (start : ℕ) : ℕ → ℕ → Bool → Bool → ℕ → Option Found
  | 0, _, _, _, _ => none
  | rounds + 1, depth, single, double, j =>
    if j < chars.length then do
      let c ← chars[j]?
      if c = '\\' ∧ single = false then readParensFrom chars start rounds depth single double (j + 2)
      else if c = '\'' ∧ double = false then readParensFrom chars start rounds depth (!single) double (j + 1)
      else if c = '"' ∧ single = false then readParensFrom chars start rounds depth single (!double) (j + 1)
      else if c = '(' ∧ single = false ∧ double = false then
        readParensFrom chars start rounds (depth + 1) single double (j + 1)
      else if c = ')' ∧ single = false ∧ double = false then
        if depth = 1 then do
          let body ← slice chars start j
          some { body, next := j + 1, unclosed := false }
        else readParensFrom chars start rounds (depth - 1) single double (j + 1)
      else readParensFrom chars start rounds depth single double (j + 1)
    else do
      let body ← slice chars (min start chars.length) chars.length
      some { body, next := chars.length, unclosed := true }

/-- `Lexer::read_parens`. -/
def readParensAt (chars : Text) (start : ℕ) : Option Found :=
  readParensFrom chars start (chars.length + 1) 1 false false start

/-- The loop of `Lexer::read_backticks`. -/
def readBackticksFrom (chars : Text) : ℕ → Text → ℕ → Option Found
  | 0, _, _ => none
  | rounds + 1, body, j =>
    if j < chars.length then do
      let c ← chars[j]?
      if c = '\\' ∧ chars[j + 1]? = some '`' then readBackticksFrom chars rounds (body ++ ['`']) (j + 2)
      else if c = '`' then some { body, next := j + 1, unclosed := false }
      else readBackticksFrom chars rounds (body ++ [c]) (j + 1)
    else some { body, next := chars.length, unclosed := true }

/-- `Lexer::read_backticks`. -/
def readBackticksAt (chars : Text) (start : ℕ) : Option Found := readBackticksFrom chars (chars.length + 1) [] start

/-! ## Quotes -/

/-- A word in a quoted text: the word, the index, and whether the quote was never closed. -/
structure Span where
  word : Word
  next : ℕ
  unclosed : Bool
  deriving DecidableEq, Repr

/-- The loop of `Lexer::double_quoted`. -/
def doubleFrom (chars : Text) (alnum : Char → Bool) : ℕ → Span → Option Span
  | 0, _ => none
  | rounds + 1, q =>
    match chars[q.next]? with
    | none => some { q with unclosed := true }
    | some c =>
      if c = '"' then some { q with word := q.word.pushRaw ['"'], next := q.next + 1 }
      else if c = '\\' then
        match chars[q.next + 1]? with
        | none => doubleFrom chars alnum rounds { q with word := q.word.push '\\' ['\\'], next := q.next + 1 }
        | some next =>
          if next = '$' ∨ next = '`' ∨ next = '"' ∨ next = '\\' then
            doubleFrom chars alnum rounds { q with word := q.word.push next ['\\', next], next := q.next + 2 }
          else if next = '\n' then doubleFrom chars alnum rounds { q with next := q.next + 2 }
          else doubleFrom chars alnum rounds { q with word := q.word.push '\\' ['\\'], next := q.next + 1 }
      else if c = '$' ∧ chars[q.next + 1]? = some '(' then do
        let arithmetic := chars[q.next + 2]? == some '('
        let b ← readParensAt chars (q.next + 2)
        doubleFrom chars alnum rounds
          { word := q.word.substitute (dollarParens b.body) b.body (!arithmetic), next := b.next
            unclosed := q.unclosed || b.unclosed }
      else if c = '$' then
        let word := if expands alnum chars[q.next + 1]? then { q.word with dynamic := true } else q.word
        doubleFrom chars alnum rounds { q with word := word.push '$' ['$'], next := q.next + 1 }
      else if c = '`' then do
        let b ← readBackticksAt chars (q.next + 1)
        doubleFrom chars alnum rounds
          { word := q.word.substitute (backticked b.body) b.body true, next := b.next
            unclosed := q.unclosed || b.unclosed }
      else doubleFrom chars alnum rounds { q with word := q.word.push c [c], next := q.next + 1 }

/-- The escape of `$'…'` whose backslash is at `j`. -/
def ansiEscapeAt (chars : Text) (j : ℕ) : Option (Option Char × ℕ) :=
  let escape := chars[j + 1]?.getD '\\'
  if escape = 'n' then some (some '\n', 2)
  else if escape = 't' then some (some '\t', 2)
  else if escape = 'r' then some (some '\r', 2)
  else if escape = 'e' then some (some (Char.ofNat 0x1b), 2)
  else if escape = 'a' then some (some (Char.ofNat 0x7), 2)
  else if escape = 'b' then some (some (Char.ofNat 0x8), 2)
  else if escape = 'f' then some (some (Char.ofNat 0xc), 2)
  else if escape = 'v' then some (some (Char.ofNat 0xb), 2)
  else if escape = 'x' ∨ escape = 'u' then do
    let tail ← slice chars (j + 2) chars.length
    let digits := (tail.take (if escape = 'x' then 2 else 4)).takeWhile isAsciiHexdigit
    some (charOfDigits 16 digits, 2 + digits.length)
  else if '0' ≤ escape ∧ escape ≤ '7' then do
    let tail ← slice chars (j + 1) chars.length
    let digits := (tail.take 3).takeWhile fun d => '0' ≤ d && d ≤ '7'
    some (charOfDigits 8 digits, 1 + digits.length)
  else some (some escape, 2)

/-- The loop of `Lexer::ansi_c_quoted`. -/
def ansiFrom (chars : Text) : ℕ → Span → Option Span
  | 0, _ => none
  | rounds + 1, q =>
    match chars[q.next]? with
    | none => some { q with unclosed := true }
    | some c =>
      if c = '\'' then some { q with word := q.word.pushRaw ['\''], next := q.next + 1 }
      else if c ≠ '\\' then ansiFrom chars rounds { q with word := q.word.push c [c], next := q.next + 1 }
      else do
        let (decoded, used) ← ansiEscapeAt chars q.next
        let raw ← slice chars q.next (min (q.next + used) chars.length)
        let word :=
          match decoded with
          | some d => q.word.push d raw
          | none => q.word.pushRaw raw
        ansiFrom chars rounds { q with word, next := q.next + used }

/-! ## The state -/

/-- `Lexer`: the index, and the other fields.  The `rest` of those is not used. -/
structure Indexed where
  i : ℕ
  lexer : Lexer
  deriving DecidableEq, Repr

namespace Indexed

def view (chars : Text) (s : Indexed) : Lexer := { s.lexer with rest := chars.drop s.i }

/-- A quoted text, read by `loop` from the index `next`. -/
def quotedAt (s : Indexed) (opening : Text) (next : ℕ) (loop : Span → Option Span) : Option Indexed := do
  let q ← loop { word := (s.lexer.word.getD .empty).pushRaw opening, next, unclosed := s.lexer.out.unclosed }
  some { i := q.next, lexer := { s.lexer with word := some q.word, out := { s.lexer.out with unclosed := q.unclosed } } }

/-- `Lexer::single_quoted`. -/
def singleQuotedAt (chars : Text) (s : Indexed) : Option Indexed := do
  let start := s.i
  let tail ← slice chars (start + 1) chars.length
  let close := tail.findIdx? (· == '\'')
  let stop := (close.map (start + 1 + ·)).getD chars.length
  let value ← slice chars (start + 1) stop
  let raw ← slice chars start (min (stop + 1) chars.length)
  let lexer := s.lexer.onWord fun w => { w with value := w.value ++ value, raw := w.raw ++ raw }
  some { i := min (stop + 1) chars.length
         lexer := { lexer with out := { lexer.out with unclosed := lexer.out.unclosed || close.isNone } } }

/-- The loop over the lines of a body: the lines before the delimiter, and the index after it. -/
def heredocLinesFrom (chars : Text) (d : Delimiter) : ℕ → ℕ → Option (List Text × ℕ)
  | 0, _ => none
  | rounds + 1, i =>
    if i < chars.length then do
      let tail ← slice chars i chars.length
      let stop := ((tail.findIdx? (· == '\n')).map (i + ·)).getD chars.length
      let line ← slice chars i stop
      let i := min (stop + 1) chars.length
      let line := if d.stripTabs then line.dropWhile (· == '\t') else line
      if line = d.delimiter then some ([], i)
      else do
        let (lines, i) ← heredocLinesFrom chars d rounds i
        some (line :: lines, i)
    else some ([], i)

/-- One round of `Lexer::read_heredoc_bodies`. -/
def readHeredocAt (chars : Text) (s : Indexed) (awaited : ℕ × ℕ × Delimiter) : Option Indexed := do
  let (pipeline, command, d) := awaited
  let (lines, i) ← heredocLinesFrom chars d (chars.length + 1) s.i
  some { i
         lexer := { s.lexer with
           out := s.lexer.out.addHeredoc pipeline command { body := ['\n'].intercalate lines, expands := !d.quoted } } }

/-- `Lexer::read_heredoc_bodies`. -/
def readHeredocBodiesAt (chars : Text) (s : Indexed) : Option Indexed :=
  s.lexer.awaiting.foldlM (readHeredocAt chars) { s with lexer := { s.lexer with awaiting := [] } }

def commentFrom (chars : Text) : ℕ → ℕ → Option ℕ
  | 0, _ => none
  | rounds + 1, i =>
    if i < chars.length then do
      let c ← chars[i]?
      if c ≠ '\n' then commentFrom chars rounds (i + 1) else some i
    else some i

def substitutionAt (s : Indexed) (b : Found) (written : Text) (keep : Bool) : Indexed :=
  let lexer := s.lexer.onWord fun w => w.substitute written b.body keep
  { i := b.next, lexer := { lexer with out := { lexer.out with unclosed := lexer.out.unclosed || b.unclosed } } }

/-- `Lexer::redirect`. -/
def redirectAt (chars : Text) (s : Indexed) (c : Char) : Indexed :=
  let descriptor := s.lexer.word.any fun w => !w.raw.isEmpty && w.raw.all Char.isDigit
  let lexer := if descriptor then { s.lexer with word := none } else s.lexer.finishWord
  let (pending, length) := Lexer.redirectOp c chars[s.i + 1]? chars[s.i + 2]?
  { i := s.i + length, lexer := { lexer with pending := some pending } }

/-- One round of the loop of `Lexer::run`. -/
def readAt (chars : Text) (alnum : Char → Bool) (s : Indexed) : Option Indexed := do
  let c ← chars[s.i]?
  let l := s.lexer
  let next := chars[s.i + 1]?
  if c = ' ' ∨ c = '\t' ∨ c = '\r' then some { i := s.i + 1, lexer := l.finishWord }
  else if c = '\n' then readHeredocBodiesAt chars { i := s.i + 1, lexer := l.finishPipeline }
  else if c = '#' ∧ l.word = none then do
    let i ← commentFrom chars (chars.length + 1) s.i
    some { s with i }
  else if c = '\\' then
    match next with
    | none => some { i := s.i + 1, lexer := l.onWord fun w => w.pushRaw ['\\'] }
    | some next =>
      if next = '\n' then some { s with i := s.i + 2 }
      else some { i := s.i + 2, lexer := l.onWord fun w => w.push next ['\\', next] }
  else if c = '\'' then s.singleQuotedAt chars
  else if c = '"' then s.quotedAt ['"'] (s.i + 1) (doubleFrom chars alnum (chars.length + 1))
  else if c = '$' then
    if next = some '\'' then s.quotedAt ['$', '\''] (s.i + 2) (ansiFrom chars (chars.length + 1))
    else if next = some '(' then do
      let b ← readParensAt chars (s.i + 2)
      some (s.substitutionAt b (dollarParens b.body) !(chars[s.i + 2]? == some '('))
    else
      let l := if expands alnum next then l.onWord fun w => { w with dynamic := true } else l
      some { i := s.i + 1, lexer := l.onWord fun w => w.push '$' ['$'] }
  else if c = '`' then do
    let b ← readBackticksAt chars (s.i + 1)
    some (s.substitutionAt b (backticked b.body) true)
  else if c = '|' then
    if next = some '|' then some { i := s.i + 2, lexer := l.finishPipeline }
    else if next = some '&' then some { i := s.i + 2, lexer := l.finishCommand }
    else some { i := s.i + 1, lexer := l.finishCommand }
  else if c = '&' then
    if next = some '&' then some { i := s.i + 2, lexer := l.finishPipeline }
    else if next = some '>' then
      let append := chars[s.i + 2]? == some '>'
      some { i := s.i + (if append then 3 else 2)
             lexer := { l.finishWord with pending := some (.target (if append then "&>>" else "&>")) } }
    else some { i := s.i + 1, lexer := l.finishPipeline }
  else if c = ';' then
    some { i := s.i + (if next = some ';' ∨ next = some '&' then 2 else 1), lexer := l.finishPipeline }
  else if c = '(' ∨ c = ')' then some { i := s.i + 1, lexer := l.finishPipeline }
  else if (c = '<' ∨ c = '>') ∧ next = some '(' then do
    let b ← readParensAt chars (s.i + 2)
    some (s.substitutionAt b (c :: '(' :: b.body ++ [')']) true)
  else if c = '<' ∨ c = '>' then some (s.redirectAt chars c)
  else some { i := s.i + 1, lexer := l.onWord fun w => w.push c [c] }

/-- The loop of `Lexer::run`. -/
def runAt (chars : Text) (alnum : Char → Bool) : ℕ → Indexed → Option Indexed
  | 0, _ => none
  | rounds + 1, s =>
    if s.i < chars.length then (s.readAt chars alnum).bind (runAt chars alnum rounds) else some s

end Indexed

/-- `lex`. -/
def lexAt (alnum : Char → Bool) (text : Text) : Option Lexed := do
  let s ← Indexed.runAt text alnum (text.length + 1) { i := 0, lexer := Lexer.start text }
  let s ← Indexed.readHeredocBodiesAt text { s with lexer := s.lexer.finishPipeline }
  some s.lexer.out

end AnimaCore.ShellLex
