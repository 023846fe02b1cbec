import AnimaCore.ShellLex.Quoting

/-!
# AnimaCore.ShellLex.HeredocScan — substitutions in a heredoc

`approvals/detection.rs`: the substitutions of a heredoc's text are found by a scanner of its own, `substitutions_in`, which
takes quotes and escapes as they stand.

* `Alike`: the texts that the scanner and the lexer read alike.
-/

namespace AnimaCore.ShellLex

/-! ## The scanner -/

/-- A substitution of a heredoc; `arithmetic` if it starts as an arithmetic expansion does. -/
structure Substitution where
  body : Text
  arithmetic : Bool
  deriving DecidableEq, Repr

/-- The inner loop of `substitutions_in`; `body` is what was read so far. -/
def closeParens (depth : ℕ) (body : Text) : Text → Body
  | [] => { body, rest := [], unclosed := true }
  | c :: cs =>
    if c = '(' then closeParens (depth + 1) (body ++ [c]) cs
    else if c = ')' then
      if depth = 1 then { body, rest := cs, unclosed := false } else closeParens (depth - 1) (body ++ [c]) cs
    else closeParens depth (body ++ [c]) cs

/-- The loop of `substitutions_in`. -/
def scan : ℕ → Text → List Substitution
  | 0, _ => []
  | _ + 1, [] => []
  | rounds + 1, c :: cs =>
    if c = '$' ∧ cs.head? = some '(' then
      let b := closeParens 1 [] cs.tail
      { body := b.body, arithmetic := cs.tail.head? == some '(' } :: scan rounds b.rest
    else if c = '`' then
      { body := cs.takeWhile (· != '`'), arithmetic := false } :: scan rounds (cs.dropWhile (· != '`')).tail
    else scan rounds cs

def substitutionsIn (text : Text) : List Text := (scan text.length text).map Substitution.body

/-- The bodies of a scan, without the arithmetic expansions. -/
def commands (found : List Substitution) : List Text := (found.filter fun s => !s.arithmetic).map Substitution.body

/-- What `substitutions_in` finds, without the arithmetic expansions. -/
def commandsIn (text : Text) : List Text := commands (scan text.length text)

/-- What the lexer records of a text between double quotes. -/
def quotedCommands (alnum : Char → Bool) (text : Text) : List Text :=
  (lex alnum ('"' :: text ++ ['"'])).pipelines.flatten.flatMap fun c => c.words.flatMap Word.substitutions

/-! ## Parentheses -/

/-- Whether the parentheses of a text close `depth` open ones, and no more before its end. -/
def balanced : ℕ → Text → Bool
  | depth, [] => depth == 0
  | depth, c :: cs =>
    if c = '(' then balanced (depth + 1) cs
    else if c = ')' then
      match depth with
      | 0 => false
      | depth + 1 => balanced depth cs
    else balanced depth cs

/-- The characters outside escapes and single quotes, from inside such quotes if `single`. -/
def bare : Bool → Text → Text
  | _, [] => []
  | true, c :: cs => if c = '\'' then bare false cs else bare true cs
  | false, c :: cs =>
    if c = '\\' then
      match cs with
      | [] => []
      | _ :: cs => bare false cs
    else if c = '\'' then bare true cs
    else c :: bare false cs

/-- The parentheses of a body that the shell reads, and the one after it, which closes the substitution. -/
structure Closes (body : Text) : Prop where
  quote : '"' ∉ body
  balanced : balanced 0 (bare false body) = true
  closing : bare false (body ++ [')']) = bare false body ++ [')']

/-- **The texts that both read alike**: no `$(` or backtick is escaped; a `$(` is closed by the same parenthesis whether quotes
and escapes count or not; and a backtick is closed by the next one. -/
inductive Alike : Text → Prop
  | nil : Alike []
  | last : Alike ['\\']
  | escape {c : Char} {cs : Text} (h : c = '\\' ∨ c = '\n') (rest : Alike cs) : Alike ('\\' :: c :: cs)
  | dollar {cs : Text} (h : cs.head? ≠ some '(') (rest : Alike cs) : Alike ('\\' :: '$' :: cs)
  | backslash {c : Char} {cs : Text} (h : c ≠ '$' ∧ c ≠ '`' ∧ c ≠ '\\' ∧ c ≠ '\n') (rest : Alike (c :: cs)) :
      Alike ('\\' :: c :: cs)
  | parens {body cs : Text} (h : Closes body) (hraw : balanced 0 body = true) (rest : Alike cs) :
      Alike ('$' :: '(' :: body ++ ')' :: cs)
  | backticks {body cs : Text} (h : '`' ∉ body) (hend : body.getLast? ≠ some '\\') (rest : Alike cs) :
      Alike ('`' :: body ++ '`' :: cs)
  | other {c : Char} {cs : Text} (h : c ≠ '\\' ∧ c ≠ '`' ∧ ¬(c = '$' ∧ cs.head? = some '(')) (rest : Alike cs) :
      Alike (c :: cs)

variable {body acc cs rest text : Text} {depth n : ℕ} {c : Char}

theorem closeParens_balanced (h : balanced depth body = true) :
    closeParens (depth + 1) acc (body ++ ')' :: rest) = { body := acc ++ body, rest, unclosed := false } := by
  induction body generalizing depth acc with
  | nil =>
    have hzero : depth = 0 := by simpa [balanced] using h
    subst hzero
    show closeParens 1 acc (')' :: rest) = _
    unfold closeParens
    rw [if_neg (by decide), if_pos rfl, if_pos rfl, List.append_nil]
  | cons c body ih =>
    unfold balanced at h
    show closeParens (depth + 1) acc (c :: (body ++ ')' :: rest)) = _
    unfold closeParens
    by_cases hopen : c = '('
    · rw [if_pos hopen] at h
      rw [if_pos hopen, ih h, List.append_assoc]
      rfl
    · rw [if_neg hopen] at h ⊢
      by_cases hclose : c = ')'
      · rw [if_pos hclose] at h ⊢
        cases depth with
        | zero => cases h
        | succ depth =>
          have hone : depth + 1 + 1 ≠ 1 := by omega
          rw [if_neg hone, Nat.add_sub_cancel, ih h, List.append_assoc]
          rfl
      · rw [if_neg hclose] at h ⊢
        rw [ih h, List.append_assoc]
        rfl

theorem balanced_of_closeParens {b : Body} (h : closeParens (depth + 1) acc text = b) :
    (b.unclosed = true ∧ b.body = acc ++ text) ∨
      ∃ body, b.body = acc ++ body ∧ text = body ++ ')' :: b.rest ∧ balanced depth body = true := by
  induction text generalizing depth acc with
  | nil =>
    subst h
    exact .inl ⟨rfl, (List.append_nil acc).symm⟩
  | cons c cs ih =>
    unfold closeParens at h
    have hstep : ∀ {d : ℕ}, (∀ body, balanced d body = true → balanced depth (c :: body) = true) →
        closeParens (d + 1) (acc ++ [c]) cs = b → (b.unclosed = true ∧ b.body = acc ++ c :: cs) ∨
          ∃ body, b.body = acc ++ body ∧ c :: cs = body ++ ')' :: b.rest ∧ balanced depth body = true := by
      intro d hd hclose
      rcases ih hclose with ⟨hunclosed, hbody⟩ | ⟨body, hbody, htext, hbalanced⟩
      · exact .inl ⟨hunclosed, by rw [hbody, List.append_assoc]; rfl⟩
      · exact .inr ⟨c :: body, by rw [hbody, List.append_assoc]; rfl, by rw [htext]; rfl, hd body hbalanced⟩
    by_cases hopen : c = '('
    · rw [if_pos hopen] at h
      refine hstep (fun body hbody => ?_) h
      unfold balanced
      rwa [if_pos hopen]
    · rw [if_neg hopen] at h
      by_cases hclose : c = ')'
      · rw [if_pos hclose] at h
        cases depth with
        | zero =>
          rw [if_pos rfl] at h
          subst h
          exact .inr ⟨[], (List.append_nil acc).symm, by rw [hclose]; rfl, rfl⟩
        | succ depth =>
          have hone : depth + 1 + 1 ≠ 1 := by omega
          rw [if_neg hone, Nat.add_sub_cancel] at h
          refine hstep (fun body hbody => ?_) h
          unfold balanced
          rw [if_neg hopen, if_pos hclose]
          exact hbody
      · rw [if_neg hclose] at h
        refine hstep (fun body hbody => ?_) h
        unfold balanced
        rwa [if_neg hopen, if_neg hclose]

theorem readParensLoop_balanced {single : Bool} (hquote : '"' ∉ body) (h : balanced depth (bare single body) = true)
    (hclosing : bare single (body ++ [')']) = bare single body ++ [')']) :
    readParensLoop (depth + 1) single false acc (body ++ ')' :: rest) = { body := acc ++ body, rest, unclosed := false } := by
  induction hlen : body.length using Nat.strong_induction_on generalizing body depth single acc with
  | _ n ih =>
    cases body with
    | nil =>
      have hzero : depth = 0 := by simpa [bare, balanced] using h
      cases single with
      | true => simp [bare] at hclosing
      | false =>
        subst hzero
        show readParensLoop 1 false false acc (')' :: rest) = _
        unfold readParensLoop
        simp
    | cons c cs =>
      have hc : c ≠ '"' := fun heq => hquote (heq ▸ List.mem_cons_self)
      have hcs : '"' ∉ cs := fun hmem => hquote (List.mem_cons_of_mem _ hmem)
      have hstep : ∀ {d : ℕ} {s : Bool}, balanced d (bare s cs) = true → bare s (cs ++ [')']) = bare s cs ++ [')'] →
          readParensLoop (d + 1) s false (acc ++ [c]) (cs ++ ')' :: rest) =
            { body := acc ++ c :: cs, rest, unclosed := false } := by
        intro d s hbal hclose
        have hshort : cs.length < n := by
          rw [← hlen, List.length_cons]
          omega
        rw [ih cs.length hshort hcs hbal hclose rfl, List.append_assoc]
        rfl
      rw [List.cons_append] at hclosing ⊢
      cases single with
      | true =>
        unfold readParensLoop
        rw [if_neg (by simp)]
        by_cases hsingle : c = '\''
        · unfold bare at h hclosing
          rw [if_pos hsingle] at h hclosing
          rw [if_pos ⟨hsingle, rfl⟩]
          rw [if_pos hsingle] at hclosing
          exact hstep h hclosing
        · unfold bare at h hclosing
          rw [if_neg hsingle] at h hclosing
          rw [if_neg hsingle] at hclosing
          rw [if_neg fun h => hsingle h.1, if_neg (by simp), if_neg (by simp), if_neg (by simp)]
          exact hstep h hclosing
      | false =>
        unfold readParensLoop
        by_cases hescape : c = '\\'
        · rw [if_pos ⟨hescape, rfl⟩]
          cases cs with
          | nil =>
            subst hescape
            simp [bare] at hclosing
          | cons d cs =>
            subst hescape
            have hdcs : '"' ∉ cs := fun hmem => hcs (List.mem_cons_of_mem _ hmem)
            have hshort : cs.length < n := by
              rw [← hlen, List.length_cons, List.length_cons]
              omega
            have hbal : balanced depth (bare false cs) = true := h
            have hclose : bare false (cs ++ [')']) = bare false cs ++ [')'] := hclosing
            show readParensLoop (depth + 1) false false (acc ++ ['\\', d]) (cs ++ ')' :: rest) = _
            rw [ih cs.length hshort hdcs hbal hclose rfl, List.append_assoc]
            rfl
        · have hbare : ∀ xs, bare false (c :: xs) = if c = '\'' then bare true xs else c :: bare false xs := by
            intro xs
            conv_lhs => unfold bare
            rw [if_neg hescape]
          rw [hbare] at h
          rw [hbare, hbare] at hclosing
          rw [if_neg fun h => hescape h.1]
          by_cases hsingle : c = '\''
          · rw [if_pos hsingle] at h
            rw [if_pos hsingle, if_pos hsingle] at hclosing
            rw [if_pos ⟨hsingle, rfl⟩]
            exact hstep h hclosing
          · rw [if_neg hsingle] at h
            rw [if_neg hsingle, if_neg hsingle] at hclosing
            have hclose : bare false (cs ++ [')']) = bare false cs ++ [')'] := (List.cons.inj hclosing).2
            unfold balanced at h
            rw [if_neg fun h => hsingle h.1, if_neg fun h => hc h.1]
            by_cases hopen : c = '('
            · rw [if_pos hopen] at h
              rw [if_pos ⟨hopen, rfl, rfl⟩]
              exact hstep h hclose
            · rw [if_neg hopen] at h
              rw [if_neg fun h => hopen h.1]
              by_cases hparen : c = ')'
              · rw [if_pos hparen] at h
                cases depth with
                | zero => cases h
                | succ depth =>
                  have hone : depth + 1 + 1 ≠ 1 := by omega
                  rw [if_pos ⟨hparen, rfl, rfl⟩, if_neg hone, Nat.add_sub_cancel]
                  exact hstep h hclose
              · rw [if_neg hparen] at h
                rw [if_neg fun h => hparen h.1]
                exact hstep h hclose

/-! ## Backticks -/

theorem readBackticksLoop_plain (h : '`' ∉ body) (hend : body.getLast? ≠ some '\\') :
    readBackticksLoop acc (body ++ '`' :: rest) = { body := acc ++ body, rest, unclosed := false } := by
  induction body generalizing acc with
  | nil =>
    show readBackticksLoop acc ('`' :: rest) = _
    unfold readBackticksLoop
    rw [if_neg fun h => absurd h.1 (by decide), if_pos rfl, List.append_nil]
  | cons c body ih =>
    have hc : c ≠ '`' := fun heq => h (heq ▸ List.mem_cons_self)
    have hbody : '`' ∉ body := fun hmem => h (List.mem_cons_of_mem _ hmem)
    show readBackticksLoop acc (c :: (body ++ '`' :: rest)) = _
    unfold readBackticksLoop
    have hnot : ¬(c = '\\' ∧ (body ++ '`' :: rest).head? = some '`') := by
      rintro ⟨rfl, hhead⟩
      cases body with
      | nil => exact hend rfl
      | cons d body =>
        have hd : d = '`' := by simpa using hhead
        exact hbody (hd ▸ List.mem_cons_self)
    have hend' : body.getLast? ≠ some '\\' := by
      cases body with
      | nil => simp
      | cons d body =>
        rwa [List.getLast?_cons_cons] at hend
    rw [if_neg hnot, if_neg hc, ih hbody hend', List.append_assoc]
    rfl

theorem takeWhile_backtick (h : '`' ∉ body) : (body ++ '`' :: rest).takeWhile (· != '`') = body ∧
    ((body ++ '`' :: rest).dropWhile (· != '`')).tail = rest := by
  have hne : ∀ c ∈ body, (c != '`') = true := by
    intro c hc
    rw [bne_iff_ne]
    rintro rfl
    exact h hc
  constructor
  · rw [List.takeWhile_append_of_pos hne, List.takeWhile_cons_of_neg (by simp), List.append_nil]
  · rw [List.dropWhile_append_of_pos hne, List.dropWhile_cons_of_neg (by simp)]
    rfl

/-! ## The two readings -/

variable {alnum : Char → Bool}

theorem commands_cons (s : Substitution) (found : List Substitution) :
    commands (s :: found) = (if s.arithmetic then [] else [s.body]) ++ commands found := by
  unfold commands
  cases h : s.arithmetic with
  | true => rw [List.filter_cons_of_neg (by simp [h])]; rfl
  | false => rw [List.filter_cons_of_pos (by simp [h])]; rfl

theorem doubleLoop_alike (halike : Alike text) (hquote : '"' ∉ text) : ∀ {rounds n : ℕ} {q : Quoted}, text.length < rounds →
    text.length ≤ n → q.rest = text ++ ['"'] → (doubleLoop alnum rounds q).rest = [] ∧
      (doubleLoop alnum rounds q).word.substitutions = q.word.substitutions ++ commands (scan n text) := by
  induction halike with
  | nil =>
    intro rounds n q hr hn hq
    obtain ⟨rounds, rfl⟩ : ∃ k, rounds = k + 1 := ⟨rounds - 1, by omega⟩
    have hscan : commands (scan n []) = [] := by
      cases n with
      | zero => rfl
      | succ n => rfl
    unfold doubleLoop
    rw [hq, hscan, List.append_nil]
    exact ⟨rfl, rfl⟩
  | last =>
    intro rounds n q hr hn hq
    obtain ⟨rounds, rfl⟩ : ∃ k, rounds = k + 2 := ⟨rounds - 2, by rw [List.length_singleton] at hr; omega⟩
    obtain ⟨n, rfl⟩ : ∃ k, n = k + 1 := ⟨n - 1, by rw [List.length_singleton] at hn; omega⟩
    have hscan : commands (scan (n + 1) ['\\']) = [] := by
      cases n with
      | zero => rfl
      | succ n => rfl
    unfold doubleLoop
    rw [hq, hscan, List.append_nil]
    exact ⟨rfl, rfl⟩
  | @escape c cs h _ ih =>
    intro rounds n q hr hn hq
    rw [List.length_cons, List.length_cons] at hr hn
    obtain ⟨rounds, rfl⟩ : ∃ k, rounds = k + 1 := ⟨rounds - 1, by omega⟩
    obtain ⟨n, rfl⟩ : ∃ k, n = k + 2 := ⟨n - 2, by omega⟩
    have hcs : '"' ∉ cs := fun hmem => hquote (List.mem_cons_of_mem _ (List.mem_cons_of_mem _ hmem))
    unfold doubleLoop
    rw [hq]
    rcases h with rfl | rfl
    · exact ih hcs (by omega) (by omega) rfl
    · exact ih hcs (by omega) (by omega) rfl
  | @dollar cs h _ ih =>
    intro rounds n q hr hn hq
    rw [List.length_cons, List.length_cons] at hr hn
    obtain ⟨rounds, rfl⟩ : ∃ k, rounds = k + 1 := ⟨rounds - 1, by omega⟩
    obtain ⟨n, rfl⟩ : ∃ k, n = k + 2 := ⟨n - 2, by omega⟩
    have hcs : '"' ∉ cs := fun hmem => hquote (List.mem_cons_of_mem _ (List.mem_cons_of_mem _ hmem))
    have hscan : scan (n + 2) ('\\' :: '$' :: cs) = scan n cs := by
      show scan (n + 1) ('$' :: cs) = _
      conv_lhs => unfold scan
      rw [if_neg fun hopen => h hopen.2, if_neg (by decide)]
    rw [hscan]
    unfold doubleLoop
    rw [hq]
    exact ih hcs (by omega) (by omega) rfl
  | @backslash c cs h _ ih =>
    intro rounds n q hr hn hq
    rw [List.length_cons] at hr hn
    obtain ⟨rounds, rfl⟩ : ∃ k, rounds = k + 1 := ⟨rounds - 1, by omega⟩
    obtain ⟨n, rfl⟩ : ∃ k, n = k + 1 := ⟨n - 1, by omega⟩
    have hcs : '"' ∉ c :: cs := fun hmem => hquote (List.mem_cons_of_mem _ hmem)
    have hc : c ≠ '"' := fun heq => hcs (heq ▸ List.mem_cons_self)
    obtain ⟨hdollar, htick, hback, hline⟩ := h
    unfold doubleLoop
    rw [hq]
    dsimp only [List.cons_append]
    rw [if_neg (by decide), if_pos rfl, if_neg (by simp [hdollar, htick, hback, hc]), if_neg hline]
    exact ih hcs (by omega) (by omega) rfl
  | @parens body cs h hraw _ ih =>
    intro rounds n q hr hn hq
    have hlen : ('$' :: '(' :: body ++ ')' :: cs).length = body.length + cs.length + 3 := by
      simp only [List.cons_append, List.length_cons, List.length_append]
      omega
    rw [hlen] at hr hn
    obtain ⟨rounds, rfl⟩ : ∃ k, rounds = k + 1 := ⟨rounds - 1, by omega⟩
    obtain ⟨n, rfl⟩ : ∃ k, n = k + 1 := ⟨n - 1, by omega⟩
    have hcs : '"' ∉ cs := fun hmem => hquote (by simp [hmem])
    have hread : readParens (body ++ ')' :: (cs ++ ['"'])) = { body, rest := cs ++ ['"'], unclosed := false } :=
      readParensLoop_balanced h.quote h.balanced h.closing
    have hclose : closeParens 1 [] (body ++ ')' :: cs) = { body, rest := cs, unclosed := false } :=
      closeParens_balanced hraw
    have hscan : scan (n + 1) ('$' :: '(' :: body ++ ')' :: cs) =
        { body, arithmetic := (body ++ ')' :: cs).head? == some '(' } :: scan n cs := by
      show scan (n + 1) ('$' :: '(' :: (body ++ ')' :: cs)) = _
      conv_lhs => unfold scan
      rw [if_pos ⟨rfl, rfl⟩, List.tail_cons, hclose]
    have hhead : (body ++ ')' :: (cs ++ ['"'])).head? = (body ++ ')' :: cs).head? := by
      cases body with
      | nil => rfl
      | cons c body => rfl
    have hq' : q.rest = '$' :: '(' :: (body ++ ')' :: (cs ++ ['"'])) := by
      rw [hq]
      simp
    rw [hscan, commands_cons]
    unfold doubleLoop
    rw [hq']
    dsimp only
    rw [if_neg (by decide), if_neg (by decide), if_pos ⟨rfl, rfl⟩, List.tail_cons, hread, hhead]
    generalize ((body ++ ')' :: cs).head? == some '(') = arithmetic
    obtain ⟨hrest, hsub⟩ := @ih hcs rounds n { word := q.word.substitute (dollarParens body) body (!arithmetic)
                                               rest := cs ++ ['"'], unclosed := q.unclosed || false } (by omega) (by omega) rfl
    refine ⟨hrest, hsub.trans ?_⟩
    unfold Word.substitute
    cases arithmetic with
    | true => rfl
    | false => simp
  | @backticks body cs h hend _ ih =>
    intro rounds n q hr hn hq
    have hlen : ('`' :: body ++ '`' :: cs).length = body.length + cs.length + 2 := by
      simp only [List.cons_append, List.length_cons, List.length_append]
      omega
    rw [hlen] at hr hn
    obtain ⟨rounds, rfl⟩ : ∃ k, rounds = k + 1 := ⟨rounds - 1, by omega⟩
    obtain ⟨n, rfl⟩ : ∃ k, n = k + 1 := ⟨n - 1, by omega⟩
    have hcs : '"' ∉ cs := fun hmem => hquote (by simp [hmem])
    have hread : readBackticks (body ++ '`' :: (cs ++ ['"'])) = { body, rest := cs ++ ['"'], unclosed := false } :=
      readBackticksLoop_plain h hend
    obtain ⟨htake, hdrop⟩ := @takeWhile_backtick body cs h
    have hscan : scan (n + 1) ('`' :: body ++ '`' :: cs) = { body, arithmetic := false } :: scan n cs := by
      show scan (n + 1) ('`' :: (body ++ '`' :: cs)) = _
      conv_lhs => unfold scan
      rw [if_neg fun h => absurd h.1 (by decide), if_pos rfl, htake, hdrop]
    have hq' : q.rest = '`' :: (body ++ '`' :: (cs ++ ['"'])) := by
      rw [hq]
      simp
    rw [hscan, commands_cons]
    unfold doubleLoop
    rw [hq']
    dsimp only
    rw [if_neg (by decide), if_neg (by decide), if_neg fun h => absurd h.1 (by decide), if_neg (by decide), if_pos rfl, hread]
    obtain ⟨hrest, hsub⟩ := @ih hcs rounds n { word := q.word.substitute (backticked body) body true
                                               rest := cs ++ ['"'], unclosed := q.unclosed || false } (by omega) (by omega) rfl
    refine ⟨hrest, hsub.trans ?_⟩
    unfold Word.substitute
    simp
  | @other c cs h _ ih =>
    intro rounds n q hr hn hq
    rw [List.length_cons] at hr hn
    obtain ⟨rounds, rfl⟩ : ∃ k, rounds = k + 1 := ⟨rounds - 1, by omega⟩
    obtain ⟨n, rfl⟩ : ∃ k, n = k + 1 := ⟨n - 1, by omega⟩
    have hcs : '"' ∉ cs := fun hmem => hquote (List.mem_cons_of_mem _ hmem)
    have hc : c ≠ '"' := fun heq => hquote (heq ▸ List.mem_cons_self)
    obtain ⟨hback, htick, hopen⟩ := h
    have hopen' : ¬(c = '$' ∧ (cs ++ ['"']).head? = some '(') := by
      rintro ⟨rfl, hhead⟩
      cases cs with
      | nil => cases hhead
      | cons d cs => exact hopen ⟨rfl, hhead⟩
    have hscan : scan (n + 1) (c :: cs) = scan n cs := by
      conv_lhs => unfold scan
      rw [if_neg hopen, if_neg htick]
    rw [hscan]
    unfold doubleLoop
    rw [hq]
    dsimp only [List.cons_append]
    rw [if_neg hc, if_neg hback, if_neg hopen']
    by_cases hdollar : c = '$'
    · rw [if_pos hdollar]
      have hpush : ∀ p : Prop, ∀ _ : Decidable p,
          ((if p then { q.word with dynamic := true } else q.word).push '$' ['$']).substitutions = q.word.substitutions := by
        intro p _
        split_ifs
        · rfl
        · rfl
      have hn' : cs.length ≤ n := by omega
      refine ⟨(ih hcs (by omega) hn' rfl).1, (ih hcs (by omega) hn' rfl).2.trans ?_⟩
      rw [hpush]
    · rw [if_neg hdollar, if_neg htick]
      exact ih hcs (by omega) (by omega) rfl

theorem quotedCommands_eq {q : Quoted} (h : doubleLoop alnum ((text ++ ['"']).length + 1)
    { word := Word.empty.pushRaw ['"'], rest := text ++ ['"'], unclosed := false } = q) (hrest : q.rest = []) :
    quotedCommands alnum text = q.word.substitutions := by
  have hread : (Lexer.start ('"' :: text ++ ['"'])).read alnum '"' (text ++ ['"']) =
      { Lexer.start ('"' :: text ++ ['"']) with
        word := some q.word, rest := q.rest, out := { pipelines := [], unclosed := q.unclosed } } := by
    rw [← h]
    rfl
  have hrun : Lexer.run alnum ('"' :: text ++ ['"']).length (Lexer.start ('"' :: text ++ ['"'])) =
      { Lexer.start ('"' :: text ++ ['"']) with
        word := some q.word, rest := q.rest, out := { pipelines := [], unclosed := q.unclosed } } := by
    show (Lexer.start ('"' :: text ++ ['"'])).runAll alnum = _
    rw [@Lexer.runAll_cons alnum _ '"' (text ++ ['"']) rfl, hread, Lexer.runAll_nil hrest]
  unfold quotedCommands lex
  rw [hrun]
  show q.word.substitutions ++ [] ++ [] = _
  simp

end AnimaCore.ShellLex
