import AnimaCore.ShellLex.InRange

/-!
# AnimaCore.ShellLex.Heredocs — each body for the command that opened it

A heredoc is opened in the middle of a line and its body comes after the line.  In between, the lexer knows it by the
index of its pipeline and of its command, and both are still to come when the heredoc is opened.

* `Bodies`: bodies that stand in a text one after the other, for a list of delimiters.
* `Attached`: the commands before the current line have their bodies, those of the line wait for theirs.
-/

namespace AnimaCore.ShellLex

/-! ## Bodies in a text -/

/-- The body that starts a text, for a delimiter, and the text after it. -/
def bodyAt (d : Delimiter) (text : Text) : Heredoc × Text :=
  ({ body := ['\n'].intercalate (heredocLines d (text.length + 1) text).1, expands := !d.quoted },
    (heredocLines d (text.length + 1) text).2)

/-- Bodies for these delimiters stand in the text one after the other, and the rest comes after them. -/
inductive Bodies : Text → List Delimiter → List Heredoc → Text → Prop
  | none {text rest : Text} (hrest : rest <:+ text) : Bodies text [] [] rest
  | next {text start rest : Text} {d : Delimiter} {ds : List Delimiter} {hs : List Heredoc} (hstart : start <:+ text)
      (h : Bodies (bodyAt d start).2 ds hs rest) : Bodies text (d :: ds) ((bodyAt d start).1 :: hs) rest

theorem Bodies.later {text rest rest' : Text} {ds : List Delimiter} {hs : List Heredoc} (h : Bodies text ds hs rest)
    (hrest : rest' <:+ rest) : Bodies text ds hs rest' := by
  induction h with
  | none hsuffix => exact .none (hrest.trans hsuffix)
  | next hstart _ ih => exact .next hstart (ih hrest)

theorem Bodies.earlier {text text' rest : Text} {ds : List Delimiter} {hs : List Heredoc} (h : Bodies text ds hs rest)
    (htext : text <:+ text') : Bodies text' ds hs rest := by
  cases h with
  | none hsuffix => exact .none (hsuffix.trans htext)
  | next hstart h => exact .next (hstart.trans htext) h

theorem Bodies.append {text rest rest' : Text} {ds ds' : List Delimiter} {hs hs' : List Heredoc}
    (h : Bodies text ds hs rest) (h' : Bodies rest ds' hs' rest') : Bodies text (ds ++ ds') (hs ++ hs') rest' := by
  induction h with
  | none hsuffix => exact h'.earlier hsuffix
  | next hstart _ ih => exact .next hstart (ih h')

/-! ## What waits for a body -/

/-- What the commands of one pipeline wait for, from the command `c` on. -/
def entriesIn (p : ℕ) : ℕ → List Command → List (ℕ × ℕ × Delimiter)
  | _, [] => []
  | c, cmd :: cmds => cmd.waiting.map (fun d => (p, c, d)) ++ entriesIn p (c + 1) cmds

/-- What these pipelines wait for, from the pipeline `p` on. -/
def entries : ℕ → List (List Command) → List (ℕ × ℕ × Delimiter)
  | _, [] => []
  | p, cmds :: pipelines => entriesIn p 0 cmds ++ entries (p + 1) pipelines

theorem entriesIn_append (p c : ℕ) (cmds cmds' : List Command) :
    entriesIn p c (cmds ++ cmds') = entriesIn p c cmds ++ entriesIn p (c + cmds.length) cmds' := by
  induction cmds generalizing c with
  | nil => rfl
  | cons cmd cmds ih =>
    have hlength : c + 1 + cmds.length = c + (cmd :: cmds).length := by
      rw [List.length_cons]
      omega
    rw [List.cons_append, entriesIn, entriesIn, ih, List.append_assoc, hlength]

theorem entries_append (p : ℕ) (pipelines pipelines' : List (List Command)) :
    entries p (pipelines ++ pipelines') = entries p pipelines ++ entries (p + pipelines.length) pipelines' := by
  induction pipelines generalizing p with
  | nil => rfl
  | cons cmds pipelines ih =>
    have hlength : p + 1 + pipelines.length = p + (cmds :: pipelines).length := by
      rw [List.length_cons]
      omega
    rw [List.cons_append, entries, entries, ih, List.append_assoc, hlength]

/-! ## Reading the bodies -/

theorem modify_at_length {α : Type} (front back : List α) (a : α) (f : α → α) :
    (front ++ a :: back).modify front.length f = front ++ f a :: back := by
  induction front with
  | nil => rfl
  | cons b front ih => rw [List.cons_append, List.length_cons, List.modify_succ_cons, ih, List.cons_append]

def Command.withHeredocs (cmd : Command) (hs : List Heredoc) : Command := { cmd with heredocs := cmd.heredocs ++ hs }

def Complete (cmds : List Command) : Prop := ∀ cmd ∈ cmds, cmd.heredocs.length = cmd.waiting.length

def opened (cmds : List Command) : List Delimiter := cmds.flatMap Command.waiting

/-- The bodies that were recorded for the commands. -/
def recorded (cmds : List Command) : List Heredoc := cmds.flatMap Command.heredocs

namespace Lexer

theorem readHeredoc_command (p c : ℕ) (ds : List Delimiter) : ∀ (l : Lexer) (before after : List (List Command))
    (front back : List Command) (cmd : Command), before.length = p → front.length = c →
    l.out.pipelines = before ++ (front ++ cmd :: back) :: after →
    ∃ hs rest, Bodies l.rest ds hs rest ∧ hs.length = ds.length ∧
      (ds.map fun d => (p, c, d)).foldl readHeredoc l = { l with rest := rest, out := { l.out with
        pipelines := before ++ (front ++ cmd.withHeredocs hs :: back) :: after } } := by
  induction ds with
  | nil =>
    intro l before after front back cmd _ _ hl
    refine ⟨[], l.rest, .none List.suffix_rfl, rfl, ?_⟩
    have hcmd : cmd.withHeredocs [] = cmd := by
      unfold Command.withHeredocs
      rw [List.append_nil]
    rw [hcmd, ← hl]
    rfl
  | cons d ds ih =>
    intro l before after front back cmd hp hc hl
    have hread : l.readHeredoc (p, c, d) = { l with rest := (bodyAt d l.rest).2, out := { l.out with
        pipelines := before ++ (front ++ cmd.withHeredocs [(bodyAt d l.rest).1] :: back) :: after } } := by
      show { l with rest := _, out := l.out.addHeredoc p c (bodyAt d l.rest).1 } = _
      unfold Lexed.addHeredoc
      rw [hl, ← hp, modify_at_length, ← hc, modify_at_length]
      rfl
    obtain ⟨hs, rest, hbodies, hlength, hfold⟩ := ih (l.readHeredoc (p, c, d)) before after front back
      (cmd.withHeredocs [(bodyAt d l.rest).1]) hp hc (by rw [hread])
    rw [List.map_cons, List.foldl_cons, hfold]
    rw [hread] at hbodies ⊢
    refine ⟨(bodyAt d l.rest).1 :: hs, rest, .next List.suffix_rfl hbodies, by rw [List.length_cons, hlength]; rfl, ?_⟩
    have hcmd : (cmd.withHeredocs [(bodyAt d l.rest).1]).withHeredocs hs =
        cmd.withHeredocs ((bodyAt d l.rest).1 :: hs) := by
      unfold Command.withHeredocs
      simp only [List.append_assoc, List.singleton_append]
    rw [hcmd]

theorem readHeredoc_commands (p : ℕ) (cmds : List Command) : ∀ (l : Lexer) (before after : List (List Command))
    (front : List Command), before.length = p → (∀ cmd ∈ cmds, cmd.heredocs = []) →
    l.out.pipelines = before ++ (front ++ cmds) :: after →
    ∃ cmds' rest, Bodies l.rest (opened cmds') (recorded cmds') rest ∧ Complete cmds' ∧
      (entriesIn p front.length cmds).foldl readHeredoc l = { l with rest := rest, out := { l.out with
        pipelines := before ++ (front ++ cmds') :: after } } := by
  induction cmds with
  | nil =>
    intro l before after front _ _ hl
    refine ⟨[], l.rest, .none List.suffix_rfl, fun _ h => absurd h List.not_mem_nil, ?_⟩
    rw [← hl]
    rfl
  | cons cmd cmds ih =>
    intro l before after front hp hnone hl
    obtain ⟨hcmd, hcmds⟩ := List.forall_mem_cons.mp hnone
    obtain ⟨hs, rest, hbodies, hlength, hfold⟩ :=
      readHeredoc_command p front.length cmd.waiting l before after front cmds cmd hp rfl hl
    set l' : Lexer := { l with rest := rest, out := { l.out with
      pipelines := before ++ (front ++ cmd.withHeredocs hs :: cmds) :: after } } with hl'
    obtain ⟨cmds', rest', hbodies', hcomplete, hfold'⟩ := ih l' before after (front ++ [cmd.withHeredocs hs]) hp hcmds
      (by rw [hl', List.append_assoc, List.singleton_append])
    rw [List.length_append, List.length_singleton] at hfold'
    have hdone : (cmd.withHeredocs hs).heredocs = hs := by
      unfold Command.withHeredocs
      rw [hcmd, List.nil_append]
    refine ⟨cmd.withHeredocs hs :: cmds', rest', ?_, ?_, ?_⟩
    · unfold opened recorded at hbodies' ⊢
      rw [List.flatMap_cons, List.flatMap_cons, hdone]
      exact hbodies.append hbodies'
    · intro cmd' hmem
      rcases List.mem_cons.mp hmem with rfl | hmem
      · rw [hdone]
        exact hlength
      · exact hcomplete cmd' hmem
    · rw [entriesIn, List.foldl_append, hfold, hfold', hl', List.append_assoc, List.singleton_append]

theorem readHeredoc_pipelines (fresh : List (List Command)) : ∀ (l : Lexer) (before : List (List Command)),
    (∀ cmd ∈ fresh.flatten, cmd.heredocs = []) → l.out.pipelines = before ++ fresh →
    ∃ fresh' rest, Bodies l.rest (opened fresh'.flatten) (recorded fresh'.flatten) rest ∧ Complete fresh'.flatten ∧
      (entries before.length fresh).foldl readHeredoc l = { l with rest := rest, out := { l.out with
        pipelines := before ++ fresh' } } := by
  induction fresh with
  | nil =>
    intro l before _ hl
    refine ⟨[], l.rest, .none List.suffix_rfl, fun _ h => absurd h List.not_mem_nil, ?_⟩
    rw [← hl]
    rfl
  | cons cmds fresh ih =>
    intro l before hnone hl
    rw [List.flatten_cons] at hnone
    obtain ⟨cmds', rest, hbodies, hcomplete, hfold⟩ := readHeredoc_commands before.length cmds l before fresh [] rfl
      (fun cmd hcmd => hnone cmd (List.mem_append_left _ hcmd)) hl
    rw [List.length_nil, List.nil_append] at hfold
    set l' : Lexer := { l with rest := rest, out := { l.out with pipelines := before ++ cmds' :: fresh } } with hl'
    obtain ⟨fresh', rest', hbodies', hcomplete', hfold'⟩ := ih l' (before ++ [cmds'])
      (fun cmd hcmd => hnone cmd (List.mem_append_right _ hcmd)) (by rw [hl', List.append_assoc, List.singleton_append])
    rw [List.length_append, List.length_singleton] at hfold'
    refine ⟨cmds' :: fresh', rest', ?_, ?_, ?_⟩
    · unfold opened recorded at hbodies hbodies' ⊢
      rw [List.flatten_cons, List.flatMap_append, List.flatMap_append]
      exact hbodies.append hbodies'
    · intro cmd hcmd
      rw [List.flatten_cons] at hcmd
      rcases List.mem_append.mp hcmd with hcmd | hcmd
      · exact hcomplete cmd hcmd
      · exact hcomplete' cmd hcmd
    · rw [entries, List.foldl_append, hfold, hfold', hl', List.append_assoc, List.singleton_append]

/-! ## What a round does -/

/-- The commands, and what they wait for, are the same; the command that is being read has no bodies in either. -/
structure SameCommands (l l' : Lexer) : Prop where
  pipelines : l'.out.pipelines = l.out.pipelines
  pipeline : l'.pipeline = l.pipeline
  awaiting : l'.awaiting = l.awaiting
  heredocs : l'.command.heredocs = l.command.heredocs

theorem SameCommands.trans {l l' l'' : Lexer} (h : SameCommands l l') (h' : SameCommands l' l'') : SameCommands l l'' :=
  ⟨h'.pipelines.trans h.pipelines, h'.pipeline.trans h.pipeline, h'.awaiting.trans h.awaiting,
    h'.heredocs.trans h.heredocs⟩

theorem sameCommands_finishWord (l : Lexer) : SameCommands l l.finishWord := by
  rcases l with ⟨_, _, _, _, _ | w, pending, _⟩
  · exact ⟨rfl, rfl, rfl, rfl⟩
  · refine ⟨rfl, rfl, rfl, ?_⟩
    rcases pending with _ | pending
    · rfl
    · cases pending <;> rfl

@[simp] theorem finishCommand_rest (l : Lexer) : l.finishCommand.rest = l.rest := by
  unfold finishCommand
  simp only
  split_ifs
  · exact finishWord_rest l
  · exact finishWord_rest l

@[simp] theorem finishPipeline_rest (l : Lexer) : l.finishPipeline.rest = l.rest := by
  unfold finishPipeline
  simp only
  split_ifs
  · exact finishCommand_rest l
  · exact finishCommand_rest l

/-- A round reads the bodies after a newline; otherwise it may finish the command or the pipeline, and nothing else that
concerns the commands before. -/
theorem read_effect (alnum : Char → Bool) (l : Lexer) (c : Char) (cs : Text) :
    l.read alnum c cs = ({ l.finishPipeline with rest := cs } : Lexer).readHeredocBodies ∨
      SameCommands l (l.read alnum c cs) ∨ SameCommands l.finishCommand (l.read alnum c cs) ∨
      SameCommands l.finishPipeline (l.read alnum c cs) := by
  unfold read
  by_cases hblank : c = ' ' ∨ c = '\t' ∨ c = '\r'
  · rw [if_pos hblank]
    exact .inr (.inl ((sameCommands_finishWord l).trans ⟨rfl, rfl, rfl, rfl⟩))
  rw [if_neg hblank]
  by_cases hnewline : c = '\n'
  · rw [if_pos hnewline]
    exact .inl rfl
  rw [if_neg hnewline]
  right
  by_cases hcomment : c = '#' ∧ l.word = none
  · rw [if_pos hcomment]
    exact .inl ⟨rfl, rfl, rfl, rfl⟩
  rw [if_neg hcomment]
  by_cases hescape : c = '\\'
  · rw [if_pos hescape]
    left
    unfold escape
    rcases cs with _ | ⟨next, after⟩
    · exact ⟨rfl, rfl, rfl, rfl⟩
    · simp only
      split_ifs
      · exact ⟨rfl, rfl, rfl, rfl⟩
      · exact ⟨rfl, rfl, rfl, rfl⟩
  rw [if_neg hescape]
  by_cases hsingle : c = '\''
  · rw [if_pos hsingle]
    exact .inl ⟨rfl, rfl, rfl, rfl⟩
  rw [if_neg hsingle]
  by_cases hdouble : c = '"'
  · rw [if_pos hdouble]
    exact .inl ⟨rfl, rfl, rfl, rfl⟩
  rw [if_neg hdouble]
  by_cases hdollar : c = '$'
  · rw [if_pos hdollar]
    left
    unfold dollar
    split_ifs
    · exact ⟨rfl, rfl, rfl, rfl⟩
    · exact ⟨rfl, rfl, rfl, rfl⟩
    · exact ⟨rfl, rfl, rfl, rfl⟩
    · exact ⟨rfl, rfl, rfl, rfl⟩
  rw [if_neg hdollar]
  by_cases htick : c = '`'
  · rw [if_pos htick]
    exact .inl ⟨rfl, rfl, rfl, rfl⟩
  rw [if_neg htick]
  by_cases hpipe : c = '|'
  · rw [if_pos hpipe]
    right
    unfold pipe
    split_ifs
    · exact .inr ⟨rfl, rfl, rfl, rfl⟩
    · exact .inl ⟨rfl, rfl, rfl, rfl⟩
    · exact .inl ⟨rfl, rfl, rfl, rfl⟩
  rw [if_neg hpipe]
  by_cases hand : c = '&'
  · rw [if_pos hand]
    unfold ampersand
    by_cases hboth : cs.head? = some '&'
    · rw [if_pos hboth]
      exact .inr (.inr ⟨rfl, rfl, rfl, rfl⟩)
    rw [if_neg hboth]
    by_cases hgreater : cs.head? = some '>'
    · rw [if_pos hgreater]
      exact .inl ((sameCommands_finishWord l).trans ⟨rfl, rfl, rfl, rfl⟩)
    · rw [if_neg hgreater]
      exact .inr (.inr ⟨rfl, rfl, rfl, rfl⟩)
  rw [if_neg hand]
  by_cases hsemicolon : c = ';'
  · rw [if_pos hsemicolon]
    exact .inr (.inr ⟨rfl, rfl, rfl, rfl⟩)
  rw [if_neg hsemicolon]
  by_cases hparen : c = '(' ∨ c = ')'
  · rw [if_pos hparen]
    exact .inr (.inr ⟨rfl, rfl, rfl, rfl⟩)
  rw [if_neg hparen]
  left
  by_cases hprocess : (c = '<' ∨ c = '>') ∧ cs.head? = some '('
  · rw [if_pos hprocess]
    exact ⟨rfl, rfl, rfl, rfl⟩
  rw [if_neg hprocess]
  by_cases hredirect : c = '<' ∨ c = '>'
  · rw [if_pos hredirect]
    unfold redirect
    simp only
    split_ifs
    · exact ⟨rfl, rfl, rfl, rfl⟩
    · exact (sameCommands_finishWord l).trans ⟨rfl, rfl, rfl, rfl⟩
  · rw [if_neg hredirect]
    exact ⟨rfl, rfl, rfl, rfl⟩

theorem read_suffix (alnum : Char → Bool) {l : Lexer} {c : Char} {cs : Text} (hr : l.rest = c :: cs) :
    (l.read alnum c cs).rest <:+ l.rest := by
  obtain ⟨s, -, hview⟩ := @Indexed.readAt_views (c :: cs) cs c { i := 0, lexer := l } alnum rfl
  have hsame : Indexed.view (c :: cs) { i := 0, lexer := l } = l := by
    show { l with rest := c :: cs } = l
    rw [← hr]
  rw [hsame] at hview
  rw [← hview, hr]
  exact List.drop_suffix s.i (c :: cs)

/-! ## The invariant -/

/-- The commands before the current line have their bodies, which stand in the text before what is left of it; the
commands of the line have none, and the lexer knows where each of them is. -/
def Attached (text : Text) (l : Lexer) : Prop :=
  ∃ done fresh, l.out.pipelines = done ++ fresh ∧ Complete done.flatten ∧
    Bodies text (opened done.flatten) (recorded done.flatten) l.rest ∧
    (∀ cmd ∈ fresh.flatten ++ l.pipeline ++ [l.command], cmd.heredocs = []) ∧
    l.awaiting = entries done.length (fresh ++ [l.pipeline])

theorem attached_start (text : Text) : Attached text (start text) := by
  refine ⟨[], [], rfl, fun _ h => absurd h List.not_mem_nil, .none List.suffix_rfl, ?_, rfl⟩
  intro cmd hcmd
  rw [List.mem_singleton.mp hcmd]
  rfl

theorem Attached.frame {text : Text} {l l' : Lexer} (h : Attached text l) (hsame : SameCommands l l')
    (hrest : l'.rest <:+ l.rest) : Attached text l' := by
  obtain ⟨done, fresh, hpipelines, hcomplete, hbodies, hnone, hawaiting⟩ := h
  refine ⟨done, fresh, hsame.pipelines.trans hpipelines, hcomplete, hbodies.later hrest, ?_, ?_⟩
  · intro cmd hcmd
    rw [hsame.pipeline] at hcmd
    rcases List.mem_append.mp hcmd with hcmd | hcmd
    · exact hnone cmd (List.mem_append_left _ hcmd)
    · rw [List.mem_singleton.mp hcmd, hsame.heredocs]
      exact hnone l.command (List.mem_append_right _ (List.mem_singleton_self _))
  · rw [hsame.awaiting, hsame.pipeline, hawaiting]

theorem Attached.finishCommand {text : Text} {l : Lexer} (h : Attached text l) : Attached text l.finishCommand := by
  have hword := h.frame (sameCommands_finishWord l) (by rw [finishWord_rest])
  obtain ⟨done, fresh, hpipelines, hcomplete, hbodies, hnone, hawaiting⟩ := hword
  unfold Lexer.finishCommand
  simp only
  by_cases hempty : l.finishWord.command.words = [] ∧ l.finishWord.command.redirects = [] ∧
      l.finishWord.command.waiting = [] ∧ l.finishWord.command.hereStrings = []
  · rw [if_pos hempty]
    refine ⟨done, fresh, hpipelines, hcomplete, hbodies, ?_, hawaiting⟩
    intro cmd hcmd
    rcases List.mem_append.mp hcmd with hcmd | hcmd
    · exact hnone cmd (List.mem_append_left _ hcmd)
    · rw [List.mem_singleton.mp hcmd]
      rfl
  · rw [if_neg hempty]
    refine ⟨done, fresh, hpipelines, hcomplete, hbodies, ?_, ?_⟩
    · intro cmd hcmd
      rcases List.mem_append.mp hcmd with hcmd | hcmd
      · refine hnone cmd ?_
        rw [List.append_assoc]
        exact hcmd
      · rw [List.mem_singleton.mp hcmd]
        rfl
    · simp only
      rw [hawaiting, hpipelines, entries_append, entries_append, List.append_assoc, List.length_append]
      simp only [entries, List.append_nil, entriesIn_append, entriesIn, Nat.zero_add]

theorem Attached.finishPipeline {text : Text} {l : Lexer} (h : Attached text l) :
    Attached text l.finishPipeline ∧ l.finishPipeline.pipeline = [] := by
  have hcommand := h.finishCommand
  unfold Lexer.finishPipeline
  simp only
  by_cases hempty : l.finishCommand.pipeline = []
  · rw [if_pos hempty]
    exact ⟨hcommand, hempty⟩
  · rw [if_neg hempty]
    refine ⟨?_, rfl⟩
    obtain ⟨done, fresh, hpipelines, hcomplete, hbodies, hnone, hawaiting⟩ := hcommand
    refine ⟨done, fresh ++ [l.finishCommand.pipeline], ?_, hcomplete, hbodies, ?_, ?_⟩
    · simp only
      rw [hpipelines, List.append_assoc]
    · intro cmd hcmd
      refine hnone cmd ?_
      simpa using hcmd
    · simp only
      rw [hawaiting, entries_append done.length (fresh ++ [_]) [[]]]
      simp only [entries, entriesIn, List.append_nil]

theorem Attached.readHeredocBodies {text : Text} {l : Lexer} (h : Attached text l) (hpipeline : l.pipeline = []) :
    Attached text l.readHeredocBodies ∧ l.readHeredocBodies.awaiting = [] ∧ l.readHeredocBodies.pipeline = [] ∧
      Complete l.readHeredocBodies.out.pipelines.flatten ∧ ∃ rest, Bodies text
        (opened l.readHeredocBodies.out.pipelines.flatten) (recorded l.readHeredocBodies.out.pipelines.flatten) rest := by
  obtain ⟨done, fresh, hpipelines, hcomplete, hbodies, hnone, hawaiting⟩ := h
  have hcommand : l.command.heredocs = [] := hnone l.command (List.mem_append_right _ (List.mem_singleton_self _))
  obtain ⟨fresh', rest, hbodies', hcomplete', hfold⟩ := readHeredoc_pipelines fresh { l with awaiting := [] } done
    (fun cmd hcmd => hnone cmd (List.mem_append_left _ (List.mem_append_left _ hcmd))) hpipelines
  have hentries : entries done.length (fresh ++ [l.pipeline]) = entries done.length fresh := by
    rw [hpipeline, entries_append]
    simp only [entries, entriesIn, List.append_nil]
  have hread : l.readHeredocBodies = { l with
      awaiting := [], rest := rest, out := { l.out with pipelines := done ++ fresh' } } := by
    unfold Lexer.readHeredocBodies
    rw [hawaiting, hentries, hfold]
  have hall : Complete (done ++ fresh').flatten := by
    intro cmd hcmd
    rw [List.flatten_append] at hcmd
    rcases List.mem_append.mp hcmd with hcmd | hcmd
    · exact hcomplete cmd hcmd
    · exact hcomplete' cmd hcmd
  have hboth : Bodies text (opened (done ++ fresh').flatten) (recorded (done ++ fresh').flatten) rest := by
    unfold opened recorded at hbodies hbodies' ⊢
    rw [List.flatten_append, List.flatMap_append, List.flatMap_append]
    exact hbodies.append hbodies'
  rw [hread]
  refine ⟨⟨done ++ fresh', [], by simp, hall, hboth, ?_, ?_⟩, rfl, hpipeline, hall, rest, hboth⟩
  · intro cmd hcmd
    simp only [List.flatten_nil, List.nil_append, hpipeline, List.mem_singleton] at hcmd
    rw [hcmd]
    exact hcommand
  · simp only [hpipeline]
    rfl

theorem Attached.read {text : Text} {l : Lexer} (h : Attached text l) (alnum : Char → Bool) {c : Char} {cs : Text}
    (hr : l.rest = c :: cs) : Attached text (l.read alnum c cs) := by
  have hsuffix := read_suffix alnum hr
  rcases read_effect alnum l c cs with heq | hsame | hsame | hsame
  · obtain ⟨hpipeline, hnil⟩ := h.finishPipeline
    have hframe : Attached text { l.finishPipeline with rest := cs } := by
      refine hpipeline.frame ⟨rfl, rfl, rfl, rfl⟩ ?_
      rw [finishPipeline_rest, hr]
      exact List.suffix_cons c cs
    rw [heq]
    exact (hframe.readHeredocBodies hnil).1
  · exact h.frame hsame hsuffix
  · refine h.finishCommand.frame hsame ?_
    rwa [finishCommand_rest]
  · refine h.finishPipeline.1.frame hsame ?_
    rwa [finishPipeline_rest]

theorem Attached.run {text : Text} (alnum : Char → Bool) (rounds : ℕ) : ∀ {l : Lexer}, Attached text l →
    Attached text (l.run alnum rounds) := by
  induction rounds with
  | zero =>
    intro l h
    exact h
  | succ rounds ih =>
    intro l h
    unfold Lexer.run
    rcases hr : l.rest with _ | ⟨c, cs⟩
    · exact h
    · exact ih (h.read alnum hr)

end Lexer

/-- **Each body is attached to the command that opened it.**  Every command has one body for each heredoc that it opened,
and the bodies of all the commands stand in the text in the order in which the heredocs were opened. -/
theorem heredocs_attached (alnum : Char → Bool) (text : Text) :
    Complete (lex alnum text).pipelines.flatten ∧ ∃ rest, Bodies text
      (opened (lex alnum text).pipelines.flatten) (recorded (lex alnum text).pipelines.flatten) rest := by
  have hrun := (Lexer.attached_start text).run alnum text.length
  obtain ⟨hpipeline, hnil⟩ := hrun.finishPipeline
  obtain ⟨-, -, -, hcomplete, hbodies⟩ := hpipeline.readHeredocBodies hnil
  exact ⟨hcomplete, hbodies⟩

end AnimaCore.ShellLex
