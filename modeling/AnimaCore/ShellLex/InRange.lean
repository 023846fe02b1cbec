import AnimaCore.ShellLex.Indexed

/-!
# AnimaCore.ShellLex.InRange — the lexer ends, and no slice is out of range

Each reader with an index finds what the reader of the rest finds.

* `Indexed.readAt_views`: one round of both loops does the same.
-/

namespace AnimaCore.ShellLex

/-! ## Indices and the rest of a text -/

section

variable {chars cs : Text} {c : Char} {i j n start : ℕ}

theorem at_cons (h : chars.drop j = c :: cs) : chars[j]? = some c ∧ chars.drop (j + 1) = cs ∧ j < chars.length := by
  have hhead : chars[j]? = some c := by rw [← List.head?_drop, h, List.head?_cons]
  have htail : chars.drop (j + 1) = cs := by rw [← List.tail_drop, h, List.tail_cons]
  exact ⟨hhead, htail, (List.getElem?_eq_some_iff.mp hhead).1⟩

theorem at_nil (h : chars.drop j = []) : chars[j]? = none ∧ chars.length ≤ j := by
  have hle := List.drop_eq_nil_iff.mp h
  exact ⟨List.getElem?_eq_none hle, hle⟩

theorem slice_eq_some (hij : i ≤ j) (hj : j ≤ chars.length) : slice chars i j = some ((chars.drop i).take (j - i)) :=
  if_pos ⟨hij, hj⟩

theorem slice_to_end (hi : i ≤ chars.length) : slice chars i chars.length = some (chars.drop i) := by
  rw [slice_eq_some hi le_rfl, List.take_of_length_le (by rw [List.length_drop])]

theorem take_drop_succ (hij : i ≤ j) (h : chars[j]? = some c) :
    (chars.drop i).take (j + 1 - i) = (chars.drop i).take (j - i) ++ [c] := by
  have hget : (chars.drop i)[j - i]? = some c := by
    rw [List.getElem?_drop]
    rw [← h]
    congr 1
    omega
  have hsucc : j + 1 - i = (j - i) + 1 := by omega
  rw [hsucc, List.take_add_one, hget]
  rfl

/-! ## Substitutions -/

/-- What the two readers of a substitution agree on. -/
def Found.Reads (chars : Text) (found : Option Found) (b : Body) : Prop :=
  ∃ f, found = some f ∧ f.body = b.body ∧ chars.drop f.next = b.rest ∧ f.unclosed = b.unclosed

theorem take_drop_of_le (hj : chars.length ≤ j) : (chars.drop i).take (j - i) = chars.drop i :=
  List.take_of_length_le (by rw [List.length_drop]; omega)

theorem slice_min_start : slice chars (min start chars.length) chars.length = some (chars.drop start) := by
  rw [slice_to_end (min_le_right _ _)]
  rcases le_total start chars.length with hle | hle
  · rw [min_eq_left hle]
  · rw [min_eq_right hle, List.drop_length, List.drop_eq_nil_of_le hle]

theorem readParensFrom_reads (rounds : ℕ) : ∀ (depth : ℕ) (single double : Bool) (j : ℕ), start ≤ j → 0 < rounds →
    chars.length < rounds + j →
    Found.Reads chars (readParensFrom chars start rounds depth single double j)
      (readParensLoop depth single double ((chars.drop start).take (j - start)) (chars.drop j)) := by
  induction rounds with
  | zero =>
    intro depth single double j hstart hpos
    omega
  | succ rounds ih =>
    intro depth single double j hstart hpos hrounds
    rcases hd : chars.drop j with _ | ⟨c, cs⟩
    · obtain ⟨-, hle⟩ := at_nil hd
      unfold readParensFrom readParensLoop
      rw [if_neg (by omega), slice_min_start, take_drop_of_le hle]
      exact ⟨_, rfl, rfl, List.drop_length, rfl⟩
    · obtain ⟨hc, hnext, hlt⟩ := at_cons hd
      have hbody := take_drop_succ hstart hc
      -- One character on.
      have on : ∀ (depth : ℕ) (single double : Bool),
          Found.Reads chars (readParensFrom chars start rounds depth single double (j + 1))
            (readParensLoop depth single double ((chars.drop start).take (j - start) ++ [c]) cs) := by
        intro depth single double
        have := ih depth single double (j + 1) (by omega) (by omega) (by omega)
        rwa [hbody, hnext] at this
      unfold readParensFrom readParensLoop
      rw [if_pos hlt, hc]
      simp only [Option.bind_eq_bind, Option.bind_some]
      by_cases hescape : c = '\\' ∧ single = false
      · rw [if_pos hescape, if_pos hescape]
        have htwo := ih depth single double (j + 2) (by omega) (by omega) (by omega)
        rcases cs with _ | ⟨d, cs⟩
        · have hlength : chars.length ≤ j + 1 := List.drop_eq_nil_iff.mp hnext
          have hnil : chars.drop (j + 2) = [] := List.drop_eq_nil_of_le (by omega)
          have htake : (chars.drop start).take (j + 2 - start) = (chars.drop start).take (j - start) ++ [c] := by
            rw [take_drop_of_le (by omega), ← hbody, take_drop_of_le hlength]
          rw [hnil, htake] at htwo
          exact htwo
        · obtain ⟨hd', hnext', -⟩ := at_cons hnext
          have hbody' := take_drop_succ (by omega : start ≤ j + 1) hd'
          rw [hbody', hbody, hnext', List.append_assoc] at htwo
          exact htwo
      rw [if_neg hescape, if_neg hescape]
      by_cases hsingle : c = '\'' ∧ double = false
      · rw [if_pos hsingle, if_pos hsingle]
        exact on _ _ _
      rw [if_neg hsingle, if_neg hsingle]
      by_cases hdouble : c = '"' ∧ single = false
      · rw [if_pos hdouble, if_pos hdouble]
        exact on _ _ _
      rw [if_neg hdouble, if_neg hdouble]
      by_cases hopen : c = '(' ∧ single = false ∧ double = false
      · rw [if_pos hopen, if_pos hopen]
        exact on _ _ _
      rw [if_neg hopen, if_neg hopen]
      by_cases hclose : c = ')' ∧ single = false ∧ double = false
      · rw [if_pos hclose, if_pos hclose]
        by_cases hdepth : depth = 1
        · rw [if_pos hdepth, if_pos hdepth, slice_eq_some hstart (by omega)]
          exact ⟨_, rfl, rfl, hnext, rfl⟩
        · rw [if_neg hdepth, if_neg hdepth]
          exact on _ _ _
      · rw [if_neg hclose, if_neg hclose]
        exact on _ _ _

theorem readParensAt_reads (start : ℕ) : Found.Reads chars (readParensAt chars start) (readParens (chars.drop start)) := by
  have h : Found.Reads chars (readParensAt chars start)
      (readParensLoop 1 false false ((chars.drop start).take (start - start)) (chars.drop start)) :=
    readParensFrom_reads (chars.length + 1) 1 false false start le_rfl (by omega) (by omega)
  rw [Nat.sub_self, List.take_zero] at h
  exact h

theorem readBackticksFrom_reads (rounds : ℕ) : ∀ (body : Text) (j : ℕ), 0 < rounds → chars.length < rounds + j →
    Found.Reads chars (readBackticksFrom chars rounds body j) (readBackticksLoop body (chars.drop j)) := by
  induction rounds with
  | zero =>
    intro body j hpos
    omega
  | succ rounds ih =>
    intro body j hpos hrounds
    rcases hd : chars.drop j with _ | ⟨c, cs⟩
    · obtain ⟨-, hle⟩ := at_nil hd
      unfold readBackticksFrom readBackticksLoop
      rw [if_neg (by omega)]
      exact ⟨_, rfl, rfl, List.drop_length, rfl⟩
    · obtain ⟨hc, hnext, hlt⟩ := at_cons hd
      unfold readBackticksFrom readBackticksLoop
      rw [if_pos hlt, hc, ← List.head?_drop, hnext]
      simp only [Option.bind_eq_bind, Option.bind_some]
      by_cases hescape : c = '\\' ∧ cs.head? = some '`'
      · rw [if_pos hescape, if_pos hescape]
        rcases cs with _ | ⟨d, cs⟩
        · cases hescape.2
        · obtain ⟨-, hnext', hlt'⟩ := at_cons hnext
          have htwo := ih (body ++ ['`']) (j + 2) (by omega) (by omega)
          rwa [hnext'] at htwo
      rw [if_neg hescape, if_neg hescape]
      by_cases hclose : c = '`'
      · rw [if_pos hclose, if_pos hclose]
        exact ⟨_, rfl, rfl, hnext, rfl⟩
      · rw [if_neg hclose, if_neg hclose]
        have hone := ih (body ++ [c]) (j + 1) (by omega) (by omega)
        rwa [hnext] at hone

theorem readBackticksAt_reads (start : ℕ) :
    Found.Reads chars (readBackticksAt chars start) (readBackticks (chars.drop start)) :=
  readBackticksFrom_reads (chars.length + 1) [] start (by omega) (by omega)

/-! ## Quotes -/

/-- What the two readers of a quoted text agree on. -/
def Span.Reads (chars : Text) (span : Option Span) (q : Quoted) : Prop :=
  ∃ s, span = some s ∧ s.word = q.word ∧ chars.drop s.next = q.rest ∧ s.unclosed = q.unclosed

theorem next_of_shorter {a b : ℕ} (h : (chars.drop b).length ≤ (chars.drop a).length) (ha : a ≤ chars.length) : a ≤ b := by
  rw [List.length_drop, List.length_drop] at h
  omega

theorem doubleFrom_reads (alnum : Char → Bool) (rounds : ℕ) : ∀ (rounds' : ℕ) (s : Span), 0 < rounds →
    chars.length < rounds + s.next → (chars.drop s.next).length < rounds' →
    Span.Reads chars (doubleFrom chars alnum rounds s)
      (doubleLoop alnum rounds' { word := s.word, rest := chars.drop s.next, unclosed := s.unclosed }) := by
  induction rounds with
  | zero =>
    intro rounds' s hpos
    omega
  | succ rounds ih =>
    intro rounds' s hpos hrounds hrounds'
    rcases rounds' with _ | rounds'
    · omega
    rcases hd : chars.drop s.next with _ | ⟨c, cs⟩
    · obtain ⟨hnone, -⟩ := at_nil hd
      unfold doubleFrom doubleLoop
      rw [hnone]
      exact ⟨_, rfl, rfl, hd, rfl⟩
    · obtain ⟨hc, hnext, hlt⟩ := at_cons hd
      rw [hd, List.length_cons] at hrounds'
      have hhead : cs.head? = chars[s.next + 1]? := by rw [← List.head?_drop, hnext]
      have htail : cs.tail = chars.drop (s.next + 2) := by rw [← hnext, List.tail_drop]
      have hafter : cs.tail.head? = chars[s.next + 2]? := by rw [htail, List.head?_drop]
      have hcs : cs.length = chars.length - (s.next + 1) := by rw [← hnext, List.length_drop]
      -- Both loops go on after the character.
      have on : ∀ s' : Span, s.next + 1 ≤ s'.next → (chars.drop s'.next).length ≤ cs.length →
          Span.Reads chars (doubleFrom chars alnum rounds s')
            (doubleLoop alnum rounds' { word := s'.word, rest := chars.drop s'.next, unclosed := s'.unclosed }) :=
        fun s' hnext' hshort => ih rounds' s' (by omega) (by omega) (by omega)
      have one : ∀ word : Word, Span.Reads chars (doubleFrom chars alnum rounds { s with word, next := s.next + 1 })
          (doubleLoop alnum rounds' { word, rest := cs, unclosed := s.unclosed }) := by
        intro word
        have := on { s with word, next := s.next + 1 } le_rfl (by rw [hnext])
        rwa [hnext] at this
      unfold doubleFrom doubleLoop
      rw [hc]
      simp only
      by_cases hclose : c = '"'
      · rw [if_pos hclose, if_pos hclose]
        exact ⟨_, rfl, rfl, hnext, rfl⟩
      rw [if_neg hclose, if_neg hclose]
      by_cases hescape : c = '\\'
      · rw [if_pos hescape, if_pos hescape, ← hhead]
        rcases cs with _ | ⟨next, after⟩
        · exact one _
        · obtain ⟨-, hnext', -⟩ := at_cons hnext
          have two : ∀ word : Word, Span.Reads chars (doubleFrom chars alnum rounds { s with word, next := s.next + 2 })
              (doubleLoop alnum rounds' { word, rest := after, unclosed := s.unclosed }) := by
            intro word
            have := on { s with word, next := s.next + 2 } (by simp) (by rw [hnext']; simp)
            rwa [hnext'] at this
          simp only [List.head?_cons]
          by_cases hspecial : next = '$' ∨ next = '`' ∨ next = '"' ∨ next = '\\'
          · rw [if_pos hspecial, if_pos hspecial]
            exact two _
          rw [if_neg hspecial, if_neg hspecial]
          by_cases hnewline : next = '\n'
          · rw [if_pos hnewline, if_pos hnewline]
            exact two _
          · rw [if_neg hnewline, if_neg hnewline]
            exact one _
      rw [if_neg hescape, if_neg hescape, hhead, hafter]
      by_cases hparens : c = '$' ∧ chars[s.next + 1]? = some '('
      · rw [if_pos hparens, if_pos hparens]
        obtain ⟨b, hb, hbody, hrest, hunclosed⟩ := @readParensAt_reads chars (s.next + 2)
        have hshort := readParens_shrinks (chars.drop (s.next + 2))
        rw [hb, htail, ← hbody, ← hrest, ← hunclosed]
        have hlength : (chars.drop b.next).length ≤ cs.length := by
          rw [hrest]
          rw [List.length_drop] at hshort
          omega
        exact on _ (next_of_shorter (by rw [hnext]; exact hlength) hlt) hlength
      rw [if_neg hparens, if_neg hparens]
      by_cases hdollar : c = '$'
      · rw [if_pos hdollar, if_pos hdollar]
        exact one _
      rw [if_neg hdollar, if_neg hdollar]
      by_cases htick : c = '`'
      · rw [if_pos htick, if_pos htick]
        obtain ⟨b, hb, hbody, hrest, hunclosed⟩ := @readBackticksAt_reads chars (s.next + 1)
        have hshort := readBackticks_shrinks (chars.drop (s.next + 1))
        rw [hnext] at hbody hrest hunclosed hshort
        rw [hb, ← hbody, ← hrest, ← hunclosed]
        have hlength : (chars.drop b.next).length ≤ cs.length := by rwa [hrest]
        exact on _ (next_of_shorter (by rw [hnext]; exact hlength) hlt) hlength
      · rw [if_neg htick, if_neg htick]
        exact one _

theorem ansiEscape_used (after : Text) : 1 ≤ (ansiEscape after).2 := by
  unfold ansiEscape
  simp only
  split_ifs <;> simp only <;> omega

theorem ansiEscapeAt_eq (h : chars.drop j = c :: cs) : ansiEscapeAt chars j = some (ansiEscape cs) := by
  obtain ⟨-, hnext, hlt⟩ := at_cons h
  have hhead : chars[j + 1]? = cs.head? := by rw [← List.head?_drop, hnext]
  have hlength : cs.length = chars.length - (j + 1) := by rw [← hnext, List.length_drop]
  unfold ansiEscapeAt ansiEscape
  rw [hhead]
  generalize hescape : cs.head?.getD '\\' = escape
  -- The escape is the character after the backslash, or a backslash if there is none.
  have hsome : escape ≠ '\\' → 1 ≤ cs.length := by
    intro hne
    rcases cs with _ | ⟨d, cs⟩
    · exact absurd hescape.symm hne
    · simp
  by_cases hn : escape = 'n'
  · simp only [if_pos hn]
  by_cases ht : escape = 't'
  · simp only [if_neg hn, if_pos ht]
  by_cases hr : escape = 'r'
  · simp only [if_neg hn, if_neg ht, if_pos hr]
  by_cases he : escape = 'e'
  · simp only [if_neg hn, if_neg ht, if_neg hr, if_pos he]
  by_cases ha : escape = 'a'
  · simp only [if_neg hn, if_neg ht, if_neg hr, if_neg he, if_pos ha]
  by_cases hb : escape = 'b'
  · simp only [if_neg hn, if_neg ht, if_neg hr, if_neg he, if_neg ha, if_pos hb]
  by_cases hf : escape = 'f'
  · simp only [if_neg hn, if_neg ht, if_neg hr, if_neg he, if_neg ha, if_neg hb, if_pos hf]
  by_cases hv : escape = 'v'
  · simp only [if_neg hn, if_neg ht, if_neg hr, if_neg he, if_neg ha, if_neg hb, if_neg hf, if_pos hv]
  simp only [if_neg hn, if_neg ht, if_neg hr, if_neg he, if_neg ha, if_neg hb, if_neg hf, if_neg hv]
  by_cases hx : escape = 'x' ∨ escape = 'u'
  · rw [if_pos hx, if_pos hx]
    have hne : escape ≠ '\\' := by
      rintro rfl
      revert hx
      decide
    have hlong := hsome hne
    rw [slice_to_end (by omega), ← List.drop_drop (i := 1) (j := j + 1), hnext, List.drop_one]
    rfl
  rw [if_neg hx, if_neg hx]
  by_cases hoctal : '0' ≤ escape ∧ escape ≤ '7'
  · rw [if_pos hoctal, if_pos hoctal, slice_to_end (by omega), hnext]
    rfl
  · rw [if_neg hoctal, if_neg hoctal]

theorem ansiFrom_reads (rounds : ℕ) : ∀ (rounds' : ℕ) (s : Span), 0 < rounds → chars.length < rounds + s.next →
    (chars.drop s.next).length < rounds' →
    Span.Reads chars (ansiFrom chars rounds s)
      (ansiLoop rounds' { word := s.word, rest := chars.drop s.next, unclosed := s.unclosed }) := by
  induction rounds with
  | zero =>
    intro rounds' s hpos
    omega
  | succ rounds ih =>
    intro rounds' s hpos hrounds hrounds'
    rcases rounds' with _ | rounds'
    · omega
    rcases hd : chars.drop s.next with _ | ⟨c, cs⟩
    · obtain ⟨hnone, -⟩ := at_nil hd
      unfold ansiFrom ansiLoop
      rw [hnone]
      exact ⟨_, rfl, rfl, hd, rfl⟩
    · obtain ⟨hc, hnext, hlt⟩ := at_cons hd
      have hlength : (c :: cs).length = chars.length - s.next := by rw [← hd, List.length_drop]
      rw [hd] at hrounds'
      have on : ∀ s' : Span, s.next + 1 ≤ s'.next → (chars.drop s'.next).length < (c :: cs).length →
          Span.Reads chars (ansiFrom chars rounds s')
            (ansiLoop rounds' { word := s'.word, rest := chars.drop s'.next, unclosed := s'.unclosed }) :=
        fun s' hnext' hshort => ih rounds' s' (by omega) (by omega) (by omega)
      unfold ansiFrom ansiLoop
      rw [hc]
      simp only
      by_cases hclose : c = '\''
      · rw [if_pos hclose, if_pos hclose]
        exact ⟨_, rfl, rfl, hnext, rfl⟩
      rw [if_neg hclose, if_neg hclose]
      by_cases hplain : c ≠ '\\'
      · rw [if_pos hplain, if_pos hplain]
        have := on { s with word := s.word.push c [c], next := s.next + 1 } le_rfl (by rw [hnext]; simp)
        rwa [hnext] at this
      rw [if_neg hplain, if_neg hplain, ansiEscapeAt_eq hd]
      have hused := ansiEscape_used cs
      rcases hescape : ansiEscape cs with ⟨decoded, used⟩
      rw [hescape] at hused
      replace hused : 1 ≤ used := hused
      have hraw : slice chars s.next (min (s.next + used) chars.length) = some ((c :: cs).take used) := by
        rw [slice_eq_some (by omega) (min_le_right _ _), hd, Option.some.injEq, List.take_eq_take_iff]
        omega
      simp only [Option.bind_eq_bind, Option.bind_some, hraw]
      have hdrop : chars.drop (s.next + used) = (c :: cs).drop used := by rw [← List.drop_drop, hd]
      have after : ∀ word : Word, Span.Reads chars (ansiFrom chars rounds { s with word, next := s.next + used })
          (ansiLoop rounds' { word, rest := (c :: cs).drop used, unclosed := s.unclosed }) := by
        intro word
        have := on { s with word, next := s.next + used } (by simpa using hused)
          (by rw [hdrop, List.length_drop, List.length_cons]; omega)
        rwa [hdrop] at this
      exact after _

/-! ## Lines -/

theorem findIdx?_stop {tail : Text} {d : Char} (htail : chars.drop i = tail) (hi : i ≤ chars.length) :
    ((tail.findIdx? (· == d)).map (i + ·)).getD chars.length = i + (tail.takeWhile (· != d)).length := by
  have htake : (tail.takeWhile (· != d)).length = tail.findIdx (· == d) := by
    rw [List.takeWhile_eq_take_findIdx_not, List.length_take]
    have hle : tail.findIdx (fun c => !(c != d)) ≤ tail.length := List.findIdx_le_length
    have hfun : (fun c : Char => !(c != d)) = (· == d) := by
      funext c
      simp [bne]
    rw [hfun] at hle ⊢
    omega
  rw [htake]
  rcases hfind : tail.findIdx? (· == d) with _ | k
  · have hlength := List.findIdx?_eq_none_iff_findIdx_eq.mp hfind
    rw [hlength, ← htail, List.length_drop]
    show chars.length = _
    omega
  · rw [(List.findIdx?_eq_some_iff_findIdx_eq.mp hfind).2]
    rfl

theorem heredocLinesFrom_eq (d : Delimiter) (rounds : ℕ) : ∀ (rounds' i : ℕ), 0 < rounds → chars.length < rounds + i →
    (chars.drop i).length < rounds' →
    ∃ lines n, Indexed.heredocLinesFrom chars d rounds i = some (lines, n) ∧
      heredocLines d rounds' (chars.drop i) = (lines, chars.drop n) := by
  induction rounds with
  | zero =>
    intro rounds' i hpos
    omega
  | succ rounds ih =>
    intro rounds' i hpos hrounds hrounds'
    rcases rounds' with _ | rounds'
    · omega
    unfold Indexed.heredocLinesFrom
    rcases hd : chars.drop i with _ | ⟨c, cs⟩
    · obtain ⟨-, hle⟩ := at_nil hd
      rw [if_neg (by omega)]
      exact ⟨[], i, rfl, by rw [hd]; rfl⟩
    · obtain ⟨-, -, hlt⟩ := at_cons hd
      have hstop := findIdx?_stop (d := '\n') hd hlt.le
      set line := (c :: cs).takeWhile (· != '\n') with hline
      have hprefix : line <+: c :: cs := List.takeWhile_prefix _
      have hlength : (c :: cs).length = chars.length - i := by rw [← hd, List.length_drop]
      have hle : i + line.length ≤ chars.length := by
        have hlong := hprefix.length_le
        omega
      have hslice : slice chars i (i + line.length) = some line := by
        rw [slice_eq_some (by omega) hle, hd, Nat.add_sub_cancel_left, Option.some.injEq]
        exact (List.prefix_iff_eq_take.mp hprefix).symm
      have hafter : ((c :: cs).dropWhile (· != '\n')).tail = chars.drop (min (i + line.length + 1) chars.length) := by
        have hdrop : (c :: cs).dropWhile (· != '\n') = chars.drop (i + line.length) := by
          rw [← List.drop_drop, hd]
          have happend := List.takeWhile_append_dropWhile (p := (· != '\n')) (l := c :: cs)
          conv_rhs => rw [← happend]
          rw [hline, List.drop_left]
        rw [hdrop, List.tail_drop]
        rcases Nat.lt_or_ge chars.length (i + line.length + 1) with hlong | hlong
        · rw [min_eq_right hlong.le, List.drop_length, List.drop_eq_nil_of_le hlong.le]
        · rw [min_eq_left hlong]
      rw [if_pos hlt, slice_to_end hlt.le, hd]
      simp only [Option.bind_eq_bind, Option.bind_some, hstop, hslice]
      unfold heredocLines
      simp only [← hline, hafter]
      by_cases hend : (if d.stripTabs = true then line.dropWhile (· == '\t') else line) = d.delimiter
      · rw [if_pos hend, if_pos hend]
        exact ⟨[], _, rfl, rfl⟩
      · rw [if_neg hend, if_neg hend]
        have hshort : (chars.drop (min (i + line.length + 1) chars.length)).length < rounds' := by
          rw [hd] at hrounds'
          rw [List.length_drop]
          omega
        obtain ⟨lines, n, hlines, heq⟩ :=
          ih rounds' (min (i + line.length + 1) chars.length) (by omega) (by omega) hshort
        rw [hlines, heq]
        exact ⟨_, n, rfl, rfl⟩

/-! ## Rounds -/

namespace Lexer

theorem finishWord_with (l : Lexer) (rest : Text) : { l with rest := rest }.finishWord = { l.finishWord with rest := rest } := by
  rcases l with ⟨_, _, _, _, _ | w, _, _⟩ <;> rfl

theorem finishCommand_with (l : Lexer) (rest : Text) :
    { l with rest := rest }.finishCommand = { l.finishCommand with rest := rest } := by
  unfold finishCommand
  rw [finishWord_with]
  simp only
  split_ifs <;> rfl

theorem finishPipeline_with (l : Lexer) (rest : Text) :
    { l with rest := rest }.finishPipeline = { l.finishPipeline with rest := rest } := by
  unfold finishPipeline
  rw [finishCommand_with]
  simp only
  split_ifs <;> rfl

end Lexer

namespace Indexed

/-- The outcome of a round is a state that the other model has too. -/
def Views (chars : Text) (outcome : Option Indexed) (l : Lexer) : Prop := ∃ s, outcome = some s ∧ s.view chars = l

variable {s : Indexed}

theorem readHeredocBodiesAt_views (s : Indexed) :
    Views chars (s.readHeredocBodiesAt chars) (s.view chars).readHeredocBodies := by
  have hfold : ∀ (awaiting : List (ℕ × ℕ × Delimiter)) (s : Indexed),
      Views chars (awaiting.foldlM (readHeredocAt chars) s) (awaiting.foldl Lexer.readHeredoc (s.view chars)) := by
    intro awaiting
    induction awaiting with
    | nil =>
      intro s
      exact ⟨s, rfl, rfl⟩
    | cons awaited awaiting ih =>
      intro s
      obtain ⟨pipeline, command, d⟩ := awaited
      obtain ⟨lines, n, hlines, heq⟩ := @heredocLinesFrom_eq chars d (chars.length + 1)
        ((chars.drop s.i).length + 1) s.i (by omega) (by omega) (by omega)
      rw [List.foldlM_cons, List.foldl_cons]
      have hread : readHeredocAt chars s (pipeline, command, d) = some { i := n, lexer := { s.lexer with
          out := s.lexer.out.addHeredoc pipeline command { body := ['\n'].intercalate lines, expands := !d.quoted } } } := by
        unfold readHeredocAt
        simp only [hlines]
        rfl
      have hview : (s.view chars).readHeredoc (pipeline, command, d) = view chars { i := n, lexer := { s.lexer with
          out := s.lexer.out.addHeredoc pipeline command { body := ['\n'].intercalate lines, expands := !d.quoted } } } := by
        show Lexer.readHeredoc { s.lexer with rest := chars.drop s.i } (pipeline, command, d) = _
        unfold Lexer.readHeredoc
        simp only [heq]
        rfl
      rw [hread, hview]
      exact ih _
  exact hfold s.lexer.awaiting { s with lexer := { s.lexer with awaiting := [] } }

theorem singleQuotedAt_views (hd : chars.drop s.i = '\'' :: cs) :
    Views chars (s.singleQuotedAt chars) ((s.view chars).singleQuoted cs) := by
  obtain ⟨-, hnext, hlt⟩ := at_cons hd
  have hlength : cs.length = chars.length - (s.i + 1) := by rw [← hnext, List.length_drop]
  have hstop := findIdx?_stop (d := '\'') hnext hlt
  have hsplit : cs.takeWhile (· != '\'') ++ cs.dropWhile (· != '\'') = cs := List.takeWhile_append_dropWhile
  have hclose : (cs.findIdx? (· == '\'')).isNone = (cs.dropWhile (· != '\'')).isEmpty := by
    rw [Bool.eq_iff_iff, Option.isNone_iff_eq_none, List.findIdx?_eq_none_iff, List.isEmpty_iff, List.dropWhile_eq_nil_iff]
    simp
  have htail : slice chars (s.i + 1) chars.length = some cs := by
    have hslice : slice chars (s.i + 1) chars.length = some (chars.drop (s.i + 1)) := slice_to_end hlt
    rw [hslice, hnext]
  unfold singleQuotedAt Lexer.singleQuoted
  simp only [Option.bind_eq_bind, htail, Option.bind_some, hstop, hclose]
  generalize hvalue : cs.takeWhile (· != '\'') = value at hsplit ⊢
  generalize cs.dropWhile (· != '\'') = after at hsplit ⊢
  have hcs : value.length + after.length = cs.length := by rw [← hsplit, List.length_append]
  have hval : slice chars (s.i + 1) (s.i + 1 + value.length) = some value := by
    rw [slice_eq_some (by omega) (by omega), hnext, Nat.add_sub_cancel_left, ← hsplit, List.take_left]
  have hraw : slice chars s.i (min (s.i + 1 + value.length + 1) chars.length) = some ('\'' :: value ++ after.take 1) := by
    have htake : ('\'' :: (value ++ after)).take (value.length + 2) = '\'' :: value ++ after.take 1 := by
      have hadd := @List.take_length_add_append Char ('\'' :: value) after 1
      rw [List.length_cons] at hadd
      rw [← List.cons_append, ← hadd]
    rw [slice_eq_some (by omega) (min_le_right _ _), hd, Option.some.injEq, ← hsplit, ← htake, List.take_eq_take_iff,
      List.length_cons, List.length_append]
    omega
  have hafter : chars.drop (min (s.i + 1 + value.length + 1) chars.length) = after.tail := by
    have hdrop : chars.drop (s.i + 1 + value.length) = after := by rw [← List.drop_drop, hnext, ← hsplit, List.drop_left]
    rcases after with _ | ⟨d, after⟩
    · rw [List.length_nil] at hcs
      rw [min_eq_right (by omega), List.drop_length]
      rfl
    · rw [List.length_cons] at hcs
      rw [min_eq_left (by omega), ← List.tail_drop, hdrop]
  rw [hval]
  simp only [Option.bind_some, hraw]
  refine ⟨_, rfl, ?_⟩
  unfold view
  rw [hafter]
  simp only [List.append_assoc]
  rfl

theorem quotedAt_views (opening : Text) (next : ℕ) {from' : Span → Option Span} {loop : ℕ → Quoted → Quoted}
    (h : ∀ word unclosed, Span.Reads chars (from' { word, next, unclosed })
      (loop ((chars.drop next).length + 1) { word, rest := chars.drop next, unclosed })) :
    Views chars (s.quotedAt opening next from') ((s.view chars).quoted opening (chars.drop next) loop) := by
  obtain ⟨q, hq, hword, hrest, hunclosed⟩ := h ((s.lexer.word.getD .empty).pushRaw opening) s.lexer.out.unclosed
  unfold quotedAt Lexer.quoted
  rw [hq]
  refine ⟨_, rfl, ?_⟩
  simp only [view, hword, hrest, hunclosed]

theorem substitutionAt_view {f : Found} {b : Body} (hbody : f.body = b.body) (hrest : chars.drop f.next = b.rest)
    (hunclosed : f.unclosed = b.unclosed) (written : Text) (keep : Bool) :
    (s.substitutionAt f written keep).view chars = (s.view chars).substitution b written keep := by
  unfold substitutionAt Lexer.substitution
  simp only [view, hbody, hrest, hunclosed]
  rfl

theorem commentFrom_eq (rounds : ℕ) : ∀ i : ℕ, 0 < rounds → chars.length < rounds + i →
    ∃ n, commentFrom chars rounds i = some n ∧ chars.drop n = (chars.drop i).dropWhile (· != '\n') := by
  induction rounds with
  | zero =>
    intro i hpos
    omega
  | succ rounds ih =>
    intro i hpos hrounds
    unfold commentFrom
    rcases hd : chars.drop i with _ | ⟨c, cs⟩
    · obtain ⟨-, hle⟩ := at_nil hd
      rw [if_neg (by omega)]
      exact ⟨i, rfl, hd⟩
    · obtain ⟨hc, hnext, hlt⟩ := at_cons hd
      rw [if_pos hlt, hc]
      simp only [Option.bind_eq_bind, Option.bind_some]
      by_cases hnewline : c ≠ '\n'
      · rw [if_pos hnewline, List.dropWhile_cons_of_pos (by simpa using hnewline), ← hnext]
        exact ih (i + 1) (by omega) (by omega)
      · rw [if_neg hnewline, List.dropWhile_cons_of_neg (by simpa using hnewline)]
        exact ⟨i, rfl, hd⟩

theorem readAt_views (alnum : Char → Bool) (hd : chars.drop s.i = c :: cs) :
    Views chars (s.readAt chars alnum) ((s.view chars).read alnum c cs) := by
  obtain ⟨hc, hnext, hlt⟩ := at_cons hd
  have hhead : chars[s.i + 1]? = cs.head? := by rw [← List.head?_drop, hnext]
  have htail : cs.tail = chars.drop (s.i + 2) := by rw [← hnext, List.tail_drop]
  have hafter : chars[s.i + 2]? = cs.tail.head? := by rw [htail, List.head?_drop]
  have hword : (s.view chars).word = s.lexer.word := rfl
  -- A state that is one or two characters on.
  have one : ∀ l l' : Lexer, l' = { l with rest := cs } → Views chars (some { i := s.i + 1, lexer := l }) l' := by
    rintro l _ rfl
    exact ⟨_, rfl, by unfold view; rw [hnext]⟩
  have two : ∀ l l' : Lexer, l' = { l with rest := cs.tail } → Views chars (some { i := s.i + 2, lexer := l }) l' := by
    rintro l _ rfl
    exact ⟨_, rfl, by unfold view; rw [htail]⟩
  unfold readAt Lexer.read
  rw [hc, hhead, hafter, hword]
  simp only [Option.bind_eq_bind, Option.bind_some]
  by_cases hblank : c = ' ' ∨ c = '\t' ∨ c = '\r'
  · rw [if_pos hblank, if_pos hblank]
    refine one _ _ ?_
    unfold view
    rw [Lexer.finishWord_with]
  rw [if_neg hblank, if_neg hblank]
  by_cases hnewline : c = '\n'
  · rw [if_pos hnewline, if_pos hnewline]
    have hview : ({ (s.view chars).finishPipeline with rest := cs } : Lexer) =
        view chars { i := s.i + 1, lexer := s.lexer.finishPipeline } := by
      unfold view
      rw [Lexer.finishPipeline_with, hnext]
    rw [hview]
    exact readHeredocBodiesAt_views _
  rw [if_neg hnewline, if_neg hnewline]
  by_cases hcomment : c = '#' ∧ s.lexer.word = none
  · rw [if_pos hcomment, if_pos hcomment]
    obtain ⟨n, hn, hdrop⟩ := @commentFrom_eq chars (chars.length + 1) s.i (by omega) (by omega)
    rw [hd, List.dropWhile_cons_of_pos (by simpa using hnewline)] at hdrop
    rw [hn]
    exact ⟨_, rfl, by unfold view; rw [hdrop]⟩
  rw [if_neg hcomment, if_neg hcomment]
  by_cases hescape : c = '\\'
  · rw [if_pos hescape, if_pos hescape]
    unfold Lexer.escape
    rcases cs with _ | ⟨next, after⟩
    · exact one _ _ rfl
    · simp only [List.head?_cons]
      by_cases hline : next = '\n'
      · rw [if_pos hline, if_pos hline]
        exact two s.lexer _ rfl
      · rw [if_neg hline, if_neg hline]
        exact two _ _ rfl
  rw [if_neg hescape, if_neg hescape]
  by_cases hsingle : c = '\''
  · subst hsingle
    rw [if_pos rfl, if_pos rfl]
    exact singleQuotedAt_views hd
  rw [if_neg hsingle, if_neg hsingle]
  by_cases hdouble : c = '"'
  · rw [if_pos hdouble, if_pos hdouble, ← hnext]
    refine quotedAt_views ['"'] (s.i + 1) fun word unclosed => ?_
    exact doubleFrom_reads alnum (chars.length + 1) ((chars.drop (s.i + 1)).length + 1)
      { word, next := s.i + 1, unclosed } (by omega) (by simp only; omega) (by simp only; omega)
  rw [if_neg hdouble, if_neg hdouble]
  by_cases hdollar : c = '$'
  · rw [if_pos hdollar, if_pos hdollar]
    unfold Lexer.dollar
    by_cases hquote : cs.head? = some '\''
    · rw [if_pos hquote, if_pos hquote, htail]
      refine quotedAt_views ['$', '\''] (s.i + 2) fun word unclosed => ?_
      exact ansiFrom_reads (chars.length + 1) ((chars.drop (s.i + 2)).length + 1)
        { word, next := s.i + 2, unclosed } (by omega) (by simp only; omega) (by simp only; omega)
    rw [if_neg hquote, if_neg hquote]
    by_cases hopen : cs.head? = some '('
    · rw [if_pos hopen, if_pos hopen]
      obtain ⟨b, hb, hbody, hrest, hunclosed⟩ := @readParensAt_reads chars (s.i + 2)
      rw [hb]
      simp only [Option.bind_some]
      rw [hbody, htail]
      exact ⟨_, rfl, substitutionAt_view hbody hrest hunclosed _ _⟩
    · rw [if_neg hopen, if_neg hopen]
      refine one _ _ ?_
      by_cases hexpands : expands alnum cs.head? = true
      · rw [if_pos hexpands, if_pos hexpands]
        rfl
      · rw [if_neg hexpands, if_neg hexpands]
        rfl
  rw [if_neg hdollar, if_neg hdollar]
  by_cases htick : c = '`'
  · rw [if_pos htick, if_pos htick]
    obtain ⟨b, hb, hbody, hrest, hunclosed⟩ := @readBackticksAt_reads chars (s.i + 1)
    rw [hnext] at hbody hrest hunclosed
    rw [hb]
    simp only [Option.bind_some]
    rw [hbody]
    exact ⟨_, rfl, substitutionAt_view hbody hrest hunclosed _ _⟩
  rw [if_neg htick, if_neg htick]
  by_cases hpipe : c = '|'
  · rw [if_pos hpipe, if_pos hpipe]
    unfold Lexer.pipe
    by_cases hor : cs.head? = some '|'
    · rw [if_pos hor, if_pos hor]
      refine two _ _ ?_
      unfold view
      rw [Lexer.finishPipeline_with]
    rw [if_neg hor, if_neg hor]
    by_cases hand : cs.head? = some '&'
    · rw [if_pos hand, if_pos hand]
      refine two _ _ ?_
      unfold view
      rw [Lexer.finishCommand_with]
    · rw [if_neg hand, if_neg hand]
      refine one _ _ ?_
      unfold view
      rw [Lexer.finishCommand_with]
  rw [if_neg hpipe, if_neg hpipe]
  by_cases hand : c = '&'
  · rw [if_pos hand, if_pos hand]
    unfold Lexer.ampersand
    by_cases hboth : cs.head? = some '&'
    · rw [if_pos hboth, if_pos hboth]
      refine two _ _ ?_
      unfold view
      rw [Lexer.finishPipeline_with]
    rw [if_neg hboth, if_neg hboth]
    by_cases hgreater : cs.head? = some '>'
    · rw [if_pos hgreater, if_pos hgreater]
      refine ⟨_, rfl, ?_⟩
      have hdrop : chars.drop (s.i + if (cs.tail.head? == some '>') = true then 3 else 2) =
          cs.drop (if (cs.tail.head? == some '>') = true then 2 else 1) := by
        rw [← hnext]
        split_ifs
        · rw [List.drop_drop]
        · rw [List.drop_drop]
      simp only [view, Lexer.finishWord_with, hdrop]
    · rw [if_neg hgreater, if_neg hgreater]
      refine one _ _ ?_
      unfold view
      rw [Lexer.finishPipeline_with]
  rw [if_neg hand, if_neg hand]
  by_cases hsemicolon : c = ';'
  · rw [if_pos hsemicolon, if_pos hsemicolon]
    unfold Lexer.semicolon
    by_cases hlong : cs.head? = some ';' ∨ cs.head? = some '&'
    · rw [if_pos hlong, if_pos hlong]
      refine two _ _ ?_
      unfold view
      rw [Lexer.finishPipeline_with]
    · rw [if_neg hlong, if_neg hlong]
      refine one _ _ ?_
      unfold view
      rw [Lexer.finishPipeline_with]
  rw [if_neg hsemicolon, if_neg hsemicolon]
  by_cases hparen : c = '(' ∨ c = ')'
  · rw [if_pos hparen, if_pos hparen]
    refine one _ _ ?_
    unfold view
    rw [Lexer.finishPipeline_with]
  rw [if_neg hparen, if_neg hparen]
  by_cases hprocess : (c = '<' ∨ c = '>') ∧ cs.head? = some '('
  · rw [if_pos hprocess, if_pos hprocess]
    obtain ⟨b, hb, hbody, hrest, hunclosed⟩ := @readParensAt_reads chars (s.i + 2)
    rw [hb]
    simp only [Option.bind_some]
    rw [hbody, htail]
    exact ⟨_, rfl, substitutionAt_view hbody hrest hunclosed _ _⟩
  rw [if_neg hprocess, if_neg hprocess]
  by_cases hredirect : c = '<' ∨ c = '>'
  · rw [if_pos hredirect, if_pos hredirect]
    refine ⟨_, rfl, ?_⟩
    unfold redirectAt Lexer.redirect
    rw [hhead, hafter, hword, ← hd]
    rcases Lexer.redirectOp c cs.head? cs.tail.head? with ⟨pending, length⟩
    by_cases hdescriptor : (s.lexer.word.any fun w => !w.raw.isEmpty && w.raw.all Char.isDigit) = true
    · simp only [view, if_pos hdescriptor, List.drop_drop]
    · simp only [view, if_neg hdescriptor, Lexer.finishWord_with, List.drop_drop]
  · rw [if_neg hredirect, if_neg hredirect]
    exact one _ _ rfl

theorem runAt_views (alnum : Char → Bool) (rounds : ℕ) : ∀ (rounds' : ℕ) (s : Indexed), (chars.drop s.i).length < rounds →
    (chars.drop s.i).length ≤ rounds' → Views chars (runAt chars alnum rounds s) ((s.view chars).run alnum rounds') := by
  induction rounds with
  | zero =>
    intro rounds' s hrounds
    omega
  | succ rounds ih =>
    intro rounds' s hrounds hrounds'
    unfold runAt
    rcases hd : chars.drop s.i with _ | ⟨c, cs⟩
    · obtain ⟨-, hle⟩ := at_nil hd
      rw [if_neg (by omega)]
      refine ⟨s, rfl, ?_⟩
      rcases rounds' with _ | rounds'
      · rfl
      · unfold Lexer.run
        have hrest : (s.view chars).rest = [] := hd
        rw [hrest]
    · obtain ⟨-, -, hlt⟩ := at_cons hd
      rw [hd, List.length_cons] at hrounds hrounds'
      rcases rounds' with _ | rounds'
      · omega
      obtain ⟨s', hread, hview⟩ := @readAt_views chars cs c s alnum hd
      have hshort := Lexer.read_shrinks alnum (s.view chars) c cs
      rw [← hview] at hshort
      have hrest' : (s'.view chars).rest = chars.drop s'.i := rfl
      rw [hrest'] at hshort
      have hrun : (s.view chars).run alnum (rounds' + 1) = ((s.view chars).read alnum c cs).run alnum rounds' := by
        have hrest : (s.view chars).rest = c :: cs := hd
        rw [Lexer.run]
        simp only [hrest]
      rw [if_pos hlt, hread, hrun, ← hview]
      exact ih rounds' s' (by omega) (by omega)

end Indexed

theorem lexAt_eq (alnum : Char → Bool) (text : Text) : lexAt alnum text = some (lex alnum text) := by
  obtain ⟨s, hrun, hview⟩ := @Indexed.runAt_views text alnum (text.length + 1) text.length
    { i := 0, lexer := Lexer.start text } (by simp) (by simp)
  have hstart : Indexed.view text { i := 0, lexer := Lexer.start text } = Lexer.start text := rfl
  rw [hstart] at hview
  obtain ⟨s', hbodies, hview'⟩ :=
    @Indexed.readHeredocBodiesAt_views text { s with lexer := s.lexer.finishPipeline }
  have hpipeline : Indexed.view text { s with lexer := s.lexer.finishPipeline } = (s.view text).finishPipeline :=
    (Lexer.finishPipeline_with s.lexer (text.drop s.i)).symm
  rw [hpipeline, hview] at hview'
  unfold lexAt lex
  rw [hrun]
  simp only [Option.bind_eq_bind, Option.bind_some, hbodies]
  rw [← hview']
  rfl

end

end AnimaCore.ShellLex
