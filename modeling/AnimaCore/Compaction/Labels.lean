import AnimaCore.Compaction
import AnimaCore.Lib.Split

/-!
# AnimaCore.Compaction.Labels — no message speaks under another's label

* `lines` splits a text at every character that a reader may take as a line break.
* `Spaced`: behind each line break of a text stands a space; an indented text is (`spaced_indent`), also with a mark behind it.
* `Guarded`: behind each line break stands a space or the truncation mark; a shortened line is (`Spaced.shorten`), wherever it
  was cut.
-/

namespace AnimaCore.Compaction

open Lib RunDelta

def lines (text : Text) : List Text := text.splitOnP isLineBreak

def label (message : Message) : Text := speaker message ++ ": ".toList

/-- A line that nobody can take for the start of a message. -/
def Inside (line : Text) : Prop := line.head? = some ' ' ∨ messageTruncation <+: line

variable {text x y line : Text} {message : Message}

/-! ## Line breaks -/

def Unbroken (text : Text) : Prop := ∀ c ∈ text, isLineBreak c = false

def Spaced (text : Text) : Prop := ∀ front c back, text = front ++ c :: back → isLineBreak c = true → back.head? = some ' '

/-- Behind each line break stands a space or the mark. -/
def Guarded (text : Text) : Prop :=
  ∀ front c back, text = front ++ c :: back → isLineBreak c = true → back.head? = some ' ' ∨ messageTruncation <+: back

theorem unbroken_mark : Unbroken messageTruncation := by
  unfold Unbroken messageTruncation
  simp [isLineBreak]

theorem unbroken_label (message : Message) : Unbroken (label message) := by
  unfold Unbroken label speaker
  cases message.role with
  | user =>
    by_cases h : isDiscordMessage message || "email:".toList.isPrefixOf message.roomId.toList
    · simp only [if_pos h]
      simp [isLineBreak]
    · simp only [if_neg h]
      simp [isLineBreak]
  | assistant => simp [isLineBreak]
  | tool => simp [isLineBreak]
  | system => simp [isLineBreak]

theorem transcriptLine_eq (message : Message) : transcriptLine message =
    label message ++ indent (shownText message).1 ++ if (shownText message).2 then messageTruncation else [] := rfl

theorem Unbroken.take (h : Unbroken text) (n : ℕ) : Unbroken (text.take n) := fun c hc => h c (List.mem_of_mem_take hc)

theorem Unbroken.append (hx : Unbroken x) (hy : Unbroken y) : Unbroken (x ++ y) := by
  intro c hc
  rcases List.mem_append.mp hc with hc | hc
  · exact hx c hc
  · exact hy c hc

theorem Unbroken.spaced (h : Unbroken text) : Spaced text := by
  rintro front c back rfl hc
  have := h c (by simp)
  rw [hc] at this
  cases this

theorem Spaced.append (hx : Spaced x) (hy : Spaced y) : Spaced (x ++ y) := by
  intro front c back heq hc
  rcases List.append_eq_append_iff.mp heq with ⟨as, rfl, rfl⟩ | ⟨bs, rfl, hbs⟩
  · exact hy as c back rfl hc
  · rcases bs with _ | ⟨b, bs⟩
    · rw [List.nil_append] at hbs
      exact hy [] c back hbs.symm hc
    · obtain ⟨rfl, rfl⟩ := List.cons.inj hbs
      have := hx front c bs rfl hc
      rcases bs with _ | ⟨b, bs⟩
      · cases this
      · exact this

theorem Spaced.cons {c : Char} (hc : isLineBreak c = false) (h : Spaced text) : Spaced (c :: text) := by
  have hone : Unbroken [c] := fun d hd => by rw [List.mem_singleton.mp hd]; exact hc
  exact hone.spaced.append h

theorem Spaced.newline (h : Spaced text) : Spaced ('\n' :: ' ' :: ' ' :: text) := by
  have hindent : Spaced ['\n', ' '] := by
    intro front c back heq hc
    rcases front with _ | ⟨a, _ | ⟨b, front⟩⟩
    · obtain ⟨-, rfl⟩ := List.cons.inj heq
      rfl
    · obtain ⟨-, heq⟩ := List.cons.inj heq
      obtain ⟨rfl, -⟩ := List.cons.inj heq
      exact absurd hc (by decide)
    · have := congrArg List.length heq
      simp at this
  exact hindent.append (h.cons (by decide))

theorem spaced_indent (text : Text) : Spaced (indent text) := by
  induction text using indent.induct with
  | case1 rest ih =>
    rw [indent]
    exact ih.newline
  | case2 c rest hne hc ih =>
    rw [indent, if_pos hc]
    · exact ih.newline
    · exact hne
  | case3 c rest hne hc ih =>
    rw [indent, if_neg hc]
    · exact ih.cons (Bool.eq_false_iff.mpr hc)
    · exact hne
  | case4 => exact Unbroken.spaced fun c hc => absurd hc List.not_mem_nil

theorem spaced_transcriptLine (message : Message) : Spaced (transcriptLine message) := by
  have hellipsis : Spaced (if (shownText message).2 then messageTruncation else []) := by
    by_cases hcut : (shownText message).2 = true
    · rw [if_pos hcut]
      exact unbroken_mark.spaced
    · rw [if_neg hcut]
      exact Unbroken.spaced fun c hc => absurd hc List.not_mem_nil
  rw [transcriptLine_eq]
  exact ((unbroken_label message).spaced.append (spaced_indent _)).append hellipsis

theorem Spaced.guarded (h : Spaced text) : Guarded text := fun front c back heq hc => .inl (h front c back heq hc)

theorem Spaced.take_mark (h : Spaced text) (n : ℕ) : Guarded (text.take n ++ messageTruncation) := by
  intro front c back heq hc
  rcases List.append_eq_append_iff.mp heq with ⟨as, hfront, hmark⟩ | ⟨bs, htake, hbs⟩
  · have := unbroken_mark c (by rw [hmark]; simp)
    rw [hc] at this
    cases this
  · rcases bs with _ | ⟨b, bs⟩
    · rw [List.nil_append] at hbs
      have := unbroken_mark c (by rw [← hbs]; simp)
      rw [hc] at this
      cases this
    · obtain ⟨rfl, rfl⟩ := List.cons.inj hbs
      rcases bs with _ | ⟨b, bs⟩
      · exact .inr List.prefix_rfl
      · have htext : text = front ++ c :: (b :: bs ++ text.drop n) := by
          conv_lhs => rw [← List.take_append_drop n text, htake, List.append_assoc, List.cons_append]
        have hspace := h front c _ htext hc
        exact .inl hspace

theorem Spaced.shorten (h : Spaced line) (remaining : ℕ) : Guarded (Compaction.shorten line remaining) := by
  unfold Compaction.shorten
  by_cases hle : messageTruncation.length ≤ remaining
  · rw [Nat.min_eq_right hle, List.take_length]
    exact h.take_mark _
  · rw [Nat.sub_eq_zero_of_le (by omega), List.take_zero, List.nil_append]
    exact (unbroken_mark.take _).spaced.guarded

/-! ## Lines -/

theorem Guarded.of_append (h : Guarded (x ++ y)) : Guarded y := by
  rintro front c back rfl hc
  exact h (x ++ front) c back (by rw [List.append_assoc]) hc

theorem prefix_takeWhile (hx : Unbroken x) (h : x <+: text) : x <+: text.takeWhile fun c => !isLineBreak c := by
  obtain ⟨z, rfl⟩ := h
  rw [List.takeWhile_append_of_pos fun c hc => by rw [hx c hc]; rfl]
  exact List.prefix_append _ _

theorem lines_eq_cons (text : Text) : lines text = (text.takeWhile fun c => !isLineBreak c) :: (lines text).tail :=
  splitOnP_eq_cons text

theorem Guarded.lines (h : Guarded text) : ∀ line ∈ (Compaction.lines text).tail, Inside line := by
  unfold Compaction.lines
  induction text using split_induction (p := isLineBreak) with
  | piece x hx =>
    rw [List.splitOnP_eq_singleton hx]
    intro line hline
    exact absurd hline List.not_mem_nil
  | more x c y hx hc ih =>
    rw [splitOnP_piece_append hx hc, List.tail_cons, splitOnP_eq_cons y]
    intro line hline
    rcases List.mem_cons.mp hline with rfl | hline
    · rcases h x c y rfl hc with hspace | hmark
      · left
        rcases y with _ | ⟨b, y⟩
        · cases hspace
        · obtain rfl := Option.some.inj hspace
          rw [List.takeWhile_cons_of_pos (by decide)]
          rfl
      · exact .inr (prefix_takeWhile unbroken_mark hmark)
    · have hy : Guarded ([c] ++ y) := Guarded.of_append (x := x) h
      exact ih hy.of_append line hline

/-! ## The first line -/

theorem label_starts (message : Message) : label message <+: transcriptLine message := by
  rw [transcriptLine_eq, List.append_assoc]
  exact List.prefix_append _ _

theorem shorten_start (message : Message) (remaining : ℕ) :
    label message <+: shorten (transcriptLine message) remaining ∨
      ∃ a b, shorten (transcriptLine message) remaining = (label message).take a ++ messageTruncation.take b := by
  obtain ⟨rest, hrest⟩ := label_starts message
  unfold shorten
  rw [← hrest]
  by_cases hlen : (label message).length ≤ remaining - messageTruncation.length
  · left
    rw [List.take_append, List.take_of_length_le hlen, List.append_assoc]
    exact List.prefix_append _ _
  · right
    rw [List.take_append_of_le_length (by omega)]
    exact ⟨_, _, rfl⟩

/-- The first line of a message's block: its label, or in a shortened block also a part of the label before the mark. -/
def FirstLine (message : Message) (shortened : Prop) (line : Text) : Prop :=
  label message <+: line ∨ (shortened ∧ ∃ a b, line = (label message).take a ++ messageTruncation.take b)

def Block (message : Message) (shortened : Prop) (block : Text) : Prop :=
  ∃ first rest, lines block = first :: rest ∧ FirstLine message shortened first ∧ ∀ line ∈ rest, Inside line

theorem block_transcriptLine (message : Message) (shortened : Prop) : Block message shortened (transcriptLine message) :=
  ⟨_, _, lines_eq_cons _, .inl (prefix_takeWhile (unbroken_label message) (label_starts message)),
    (spaced_transcriptLine message).guarded.lines⟩

theorem block_shorten (message : Message) (remaining : ℕ) :
    Block message True (shorten (transcriptLine message) remaining) := by
  refine ⟨_, _, lines_eq_cons _, ?_, ((spaced_transcriptLine message).shorten remaining).lines⟩
  rcases shorten_start message remaining with hlabel | ⟨a, b, heq⟩
  · exact .inl (prefix_takeWhile (unbroken_label message) hlabel)
  · refine .inr ⟨trivial, a, b, ?_⟩
    have hwhole : Unbroken ((label message).take a ++ messageTruncation.take b) :=
      ((unbroken_label message).take a).append (unbroken_mark.take b)
    rw [heq]
    exact List.takeWhile_eq_self_iff.mpr fun c hc => by rw [hwhole c hc]; rfl

/-! ## What is kept -/

/-- The size of some blocks, each with a line end. -/
def size (blocks : List Text) : ℕ := (blocks.map fun block => block.length + 1).sum

theorem size_append (bs cs : List Text) : size (bs ++ cs) = size bs + size cs := by
  unfold size
  rw [List.map_append, List.sum_append]

theorem size_singleton (block : Text) : size [block] = block.length + 1 := by
  unfold size
  rw [List.map_singleton, List.sum_singleton]

theorem length_shorten_le (line : Text) (remaining : ℕ) : (shorten line remaining).length ≤ remaining := by
  unfold shorten
  rw [List.length_append, List.length_take, List.length_take]
  omega

theorem keepLines_spec (maxChars : ℕ) (ls kept : List Text) (used : ℕ) (hused : used = size kept) (hfit : used ≤ maxChars) :
    ∃ taken rest, ls = taken ++ rest ∧
      ((keepLines maxChars ls kept used = kept ++ taken ∧ size (kept ++ taken) ≤ maxChars ∧ (rest = [] ∨ kept ++ taken ≠ [])) ∨
        ∃ line older, rest = line :: older ∧
          keepLines maxChars ls kept used = kept ++ taken ++ [shorten line (maxChars - size (kept ++ taken))] ∧
          size (kept ++ taken) ≤ maxChars) := by
  induction ls generalizing kept used with
  | nil =>
    refine ⟨[], [], rfl, .inl ⟨(List.append_nil kept).symm, ?_, .inl rfl⟩⟩
    rw [List.append_nil, ← hused]
    exact hfit
  | cons line older ih =>
    unfold keepLines
    by_cases hover : maxChars < used + (line.length + 1)
    · rw [if_pos hover]
      by_cases hroom : kept = [] ∨ messageTruncation.length + 32 < maxChars - used
      · rw [if_pos hroom]
        refine ⟨[], line :: older, rfl, .inr ⟨line, older, rfl, ?_, ?_⟩⟩
        · rw [List.append_nil, hused]
        · rw [List.append_nil, ← hused]
          exact hfit
      · rw [if_neg hroom]
        refine ⟨[], line :: older, rfl, .inl ⟨(List.append_nil kept).symm, ?_, .inr ?_⟩⟩
        · rw [List.append_nil, ← hused]
          exact hfit
        · rw [List.append_nil]
          exact fun hnil => hroom (.inl hnil)
    · rw [if_neg hover]
      obtain ⟨taken, rest, hls, hcases⟩ := ih (kept ++ [line]) (used + (line.length + 1))
        (by rw [size_append, size_singleton, hused]) (by omega)
      have happend : kept ++ [line] ++ taken = kept ++ (line :: taken) := by rw [List.append_assoc, List.singleton_append]
      rw [happend] at hcases
      exact ⟨line :: taken, rest, by rw [hls, List.cons_append], hcases⟩

theorem transcript_blocks (messages : List Message) (maxChars : ℕ) : ∃ older kept blocks,
    messages = older ++ kept ∧ transcript messages maxChars = ['\n'].intercalate blocks ∧ size blocks ≤ maxChars + 1 ∧
      (kept = [] → messages = []) ∧
      (blocks = kept.map transcriptLine ∨ ∃ oldest newer remaining, kept = oldest :: newer ∧
        blocks = shorten (transcriptLine oldest) remaining :: newer.map transcriptLine) := by
  obtain ⟨taken, rest, hls, hcases⟩ := keepLines_spec maxChars (messages.map transcriptLine).reverse [] 0 rfl (Nat.zero_le _)
  simp only [List.nil_append] at hcases
  have hmap : messages.map transcriptLine = rest.reverse ++ taken.reverse := by
    rw [← List.reverse_append, ← hls, List.reverse_reverse]
  have hsize (bs : List Text) : size bs.reverse = size bs := by
    unfold size
    rw [List.map_reverse, List.sum_reverse]
  unfold transcript
  rcases hcases with ⟨hkeep, hfit, hrest⟩ | ⟨line, olderLines, rfl, hkeep, hfit⟩
  · obtain ⟨older, kept, rfl, hrestMap, htakenMap⟩ := List.map_eq_append_iff.mp hmap
    refine ⟨older, kept, taken.reverse, rfl, by rw [hkeep], by rw [hsize]; omega, fun hnil => ?_, .inl htakenMap.symm⟩
    subst hnil
    have htaken : taken = [] := by
      rw [List.map_nil] at htakenMap
      exact List.reverse_eq_nil_iff.mp htakenMap.symm
    rcases hrest with rfl | hne
    · rw [List.append_nil]
      exact List.map_eq_nil_iff.mp hrestMap
    · exact absurd htaken hne
  · rw [List.reverse_cons, List.append_assoc, List.singleton_append] at hmap
    obtain ⟨older, kept, rfl, -, hkeptMap⟩ := List.map_eq_append_iff.mp hmap
    obtain ⟨oldest, newer, rfl, rfl, hnewerMap⟩ := List.map_eq_cons_iff.mp hkeptMap
    refine ⟨older, oldest :: newer, _, rfl, by rw [hkeep], ?_, fun hnil => absurd hnil (by simp),
      .inr ⟨oldest, newer, maxChars - size taken, rfl, ?_⟩⟩
    · have hlen := length_shorten_le (transcriptLine oldest) (maxChars - size taken)
      rw [hsize, size_append, size_singleton]
      omega
    · rw [List.reverse_append, List.reverse_singleton, List.singleton_append, hnewerMap]

theorem transcriptChars_eq (message : Message) : transcriptChars message = (transcriptLine message).length + 1 := by
  unfold transcriptChars
  rw [transcriptLine_eq]
  unfold label
  dsimp only
  rw [List.length_append, List.length_append, List.length_append]
  by_cases hcut : (shownText message).2 = true
  · rw [if_pos hcut, if_pos hcut]
    omega
  · rw [if_neg hcut, if_neg hcut, List.length_nil]
    omega

/-- **No message can forge a speaker.**  The transcript is within its bound and made of a block for each message of an end of the
list.  Split at every character that a reader may take as a line break, each block starts with its message's own label (the oldest
one, when it is shortened, perhaps with a part of the label and the mark), and every other line starts with a space or the mark. -/
theorem transcript_labels (messages : List Message) (maxChars : ℕ) :
    (transcript messages maxChars).length ≤ maxChars ∧
    (∃ older kept blocks, messages = older ++ kept ∧ (kept = [] → messages = []) ∧
      transcript messages maxChars = ['\n'].intercalate blocks ∧
      (blocks ≠ [] → lines (transcript messages maxChars) = blocks.flatMap lines) ∧
      ((blocks = kept.map transcriptLine ∧ List.Forall₂ (fun message block => Block message False block) kept blocks) ∨
        ∃ oldest newer remaining, kept = oldest :: newer ∧
          blocks = shorten (transcriptLine oldest) remaining :: newer.map transcriptLine ∧
          Block oldest True (shorten (transcriptLine oldest) remaining) ∧
          List.Forall₂ (fun message block => Block message False block) newer (newer.map transcriptLine))) ∧
    (∀ message, transcriptLine message = label message ++ indent (shownText message).1 ++
      if (shownText message).2 then messageTruncation else []) ∧
    ∀ message, transcriptChars message = (transcriptLine message).length + 1 := by
  obtain ⟨older, kept, blocks, hmessages, htranscript, hsize, hempty, hblocks⟩ := transcript_blocks messages maxChars
  have hall (l : List Message) : List.Forall₂ (fun message block => Block message False block) l (l.map transcriptLine) := by
    rw [List.forall₂_map_right_iff, List.forall₂_same]
    exact fun message _ => block_transcriptLine message False
  refine ⟨?_, ⟨older, kept, blocks, hmessages, hempty, htranscript, fun hne => ?_, ?_⟩, transcriptLine_eq, transcriptChars_eq⟩
  · rw [htranscript]
    rcases eq_or_ne blocks [] with rfl | hne
    · exact Nat.zero_le _
    · have hlen : (['\n'].intercalate blocks).length + 1 = size blocks := length_intercalate_singleton '\n' hne
      omega
  · rw [htranscript]
    exact splitOnP_intercalate_flatMap (by decide) hne
  · rcases hblocks with rfl | ⟨oldest, newer, remaining, rfl, rfl⟩
    · exact .inl ⟨rfl, hall kept⟩
    · exact .inr ⟨oldest, newer, remaining, rfl, rfl, block_shorten oldest remaining, hall newer⟩

end AnimaCore.Compaction
