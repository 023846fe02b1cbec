import AnimaCore.Live.Registry

/-!
# AnimaCore.Discord — a reply in several messages

`split_reply` of `connectors/discord/text.rs`: a reply is cut into messages of at most two thousand UTF-16 units, without
cutting a character.  A reply that would need more than eight messages ends with a notice instead.

* `Cut`: what the loop has made of the characters it has read.
* `split_reply_exact`: every message can be sent, and none of the reply is lost unless it is too long for eight of them.
-/

namespace AnimaCore.Discord

open Lib Live

def messageCharacterLimit : ℕ := 2000

def maxSplitMessages : ℕ := 8

def validChunk (text : Text) : Bool :=
  !text.isEmpty && text.length ≤ messageCharacterLimit && utf16Len text ≤ messageCharacterLimit

def shortenedNotice : Text :=
  ("Anima shortened this reply to eight Discord messages. " ++
    "The complete reply is available in session history.").toList

/-- The loop over the characters: `chunks`, `current` and `units`. -/
def splitLoop (chunks : List Text) (current : Text) (units : ℕ) : Text → List Text
  | [] => if current = [] then chunks else chunks ++ [current]
  | character :: rest =>
    if messageCharacterLimit < units + utf16Size character then
      if (chunks ++ [current]).length = maxSplitMessages then
        (chunks ++ [current]).take (maxSplitMessages - 1) ++ [shortenedNotice]
      else splitLoop (chunks ++ [current]) [character] (utf16Size character) rest
    else splitLoop chunks (current ++ [character]) (units + utf16Size character) rest

def splitReply (text : Text) : List Text := splitLoop [] [] 0 text

/-- The chunks and the current one are what was read; a chunk that was closed had no room for one more character. -/
structure Cut (read : Text) (chunks : List Text) (current : Text) (units : ℕ) : Prop where
  read : chunks.flatten ++ current = read
  few : chunks.length < maxSplitMessages
  full : ∀ chunk ∈ chunks, messageCharacterLimit ≤ utf16Len chunk + 1 ∧ utf16Len chunk ≤ messageCharacterLimit
  counted : utf16Len current = units
  fits : units ≤ messageCharacterLimit

/-- What a reply may be split into. -/
structure Split (text : Text) (chunks : List Text) : Prop where
  valid : ∀ chunk ∈ chunks, validChunk chunk = true
  few : chunks.length ≤ maxSplitMessages
  whole : chunks.flatten = text ∨ maxSplitMessages * (messageCharacterLimit - 1) < utf16Len text ∧
    ∃ kept, chunks = kept ++ [shortenedNotice] ∧ kept.length = maxSplitMessages - 1 ∧ kept.flatten <+: text

theorem utf16Size_bounds (c : Char) : 1 ≤ utf16Size c ∧ utf16Size c ≤ 2 := by
  unfold utf16Size
  split_ifs
  · exact ⟨le_rfl, by omega⟩
  · exact ⟨by omega, le_rfl⟩

theorem length_le_utf16Len (text : Text) : text.length ≤ utf16Len text := by
  unfold utf16Len
  induction text with
  | nil => exact le_rfl
  | cons c text ih =>
    have hc := (utf16Size_bounds c).1
    rw [List.length_cons, weight_cons]
    omega

theorem validChunk_of_fits {text : Text} (hne : text ≠ []) (h : utf16Len text ≤ messageCharacterLimit) :
    validChunk text = true := by
  have hlength := (length_le_utf16Len text).trans h
  unfold validChunk
  simp [hne, h, hlength]

theorem validChunk_of_full {text : Text}
    (h : messageCharacterLimit ≤ utf16Len text + 1 ∧ utf16Len text ≤ messageCharacterLimit) :
    validChunk text = true := by
  refine validChunk_of_fits ?_ h.2
  rintro rfl
  exact absurd h.1 (by decide)

theorem shortenedNotice_valid : validChunk shortenedNotice = true := by decide +kernel

theorem weight_full {chunks : List Text} (h : ∀ chunk ∈ chunks, messageCharacterLimit ≤ utf16Len chunk + 1) :
    chunks.length * (messageCharacterLimit - 1) ≤ utf16Len chunks.flatten := by
  induction chunks with
  | nil => exact Nat.zero_le _
  | cons chunk chunks ih =>
    have hchunk := h chunk List.mem_cons_self
    have hrest := ih fun c hc => h c (List.mem_cons_of_mem _ hc)
    unfold utf16Len at hchunk hrest ⊢
    rw [List.length_cons, List.flatten_cons, weight_append, Nat.succ_mul]
    omega

/-- By induction on the characters that are left: each is added to the current chunk, or starts the next one. -/
theorem splitLoop_split {read : Text} {chunks : List Text} {current : Text} {units : ℕ} (h : Cut read chunks current units)
    (rest : Text) : Split (read ++ rest) (splitLoop chunks current units rest) := by
  induction rest generalizing read chunks current units with
  | nil =>
    have hvalid := fun chunk hc => validChunk_of_full (h.full chunk hc)
    rw [List.append_nil]
    unfold splitLoop
    by_cases hempty : current = []
    · rw [if_pos hempty]
      refine ⟨hvalid, h.few.le, .inl ?_⟩
      rw [← h.read, hempty, List.append_nil]
    · rw [if_neg hempty]
      refine ⟨fun chunk hc => ?_, by rw [List.length_append]; exact h.few, .inl ?_⟩
      · rcases List.mem_append.mp hc with hold | hnew
        · exact hvalid chunk hold
        · rw [List.mem_singleton.mp hnew]
          exact validChunk_of_fits hempty (h.counted.trans_le h.fits)
      · rw [List.flatten_append, List.flatten_singleton, h.read]
  | cons character rest ih =>
    obtain ⟨hone, htwo⟩ := utf16Size_bounds character
    have hunits := h.counted
    unfold splitLoop
    by_cases hover : messageCharacterLimit < units + utf16Size character
    · rw [if_pos hover]
      have hfull : ∀ chunk ∈ chunks ++ [current],
          messageCharacterLimit ≤ utf16Len chunk + 1 ∧ utf16Len chunk ≤ messageCharacterLimit := by
        intro chunk hc
        rcases List.mem_append.mp hc with hold | hnew
        · exact h.full chunk hold
        · rw [List.mem_singleton.mp hnew]
          exact ⟨by omega, hunits.trans_le h.fits⟩
      have hread : (chunks ++ [current]).flatten = read := by
        rw [List.flatten_append, List.flatten_singleton, h.read]
      by_cases hlast : (chunks ++ [current]).length = maxSplitMessages
      · rw [if_pos hlast]
        have hlength : ((chunks ++ [current]).take (maxSplitMessages - 1)).length = maxSplitMessages - 1 := by
          rw [List.length_take, hlast]
          rfl
        refine ⟨fun chunk hc => ?_, ?_, .inr ⟨?_, _, rfl, hlength, ?_⟩⟩
        · rcases List.mem_append.mp hc with hkept | hnotice
          · exact validChunk_of_full (hfull chunk (List.mem_of_mem_take hkept))
          · rw [List.mem_singleton.mp hnotice]
            exact shortenedNotice_valid
        · rw [List.length_append, hlength]
          rfl
        · have hweight := weight_full fun chunk hc => (hfull chunk hc).1
          rw [hread, hlast] at hweight
          unfold utf16Len at hweight ⊢
          rw [weight_append, weight_cons]
          omega
        · have hcut := congrArg List.flatten (List.take_append_drop (maxSplitMessages - 1) (chunks ++ [current]))
          rw [List.flatten_append, hread] at hcut
          exact ⟨_, by rw [← hcut, List.append_assoc]⟩
      · rw [if_neg hlast]
        have hnext : Cut (read ++ [character]) (chunks ++ [current]) [character] (utf16Size character) := by
          have hfew := h.few
          rw [List.length_append, List.length_singleton] at hlast
          refine ⟨by rw [hread], ?_, hfull, ?_, by show _ ≤ 2000; omega⟩
          · rw [List.length_append, List.length_singleton]
            omega
          · show weight utf16Size [character] = _
            rw [weight_cons, weight_nil, Nat.add_zero]
        have hsplit := ih hnext
        rwa [List.append_assoc, List.singleton_append] at hsplit
    · rw [if_neg hover]
      have hnext : Cut (read ++ [character]) chunks (current ++ [character]) (units + utf16Size character) := by
        refine ⟨by rw [← List.append_assoc, h.read], h.few, h.full, ?_, Nat.le_of_not_lt hover⟩
        rw [← hunits]
        unfold utf16Len
        rw [weight_append, weight_cons, weight_nil, Nat.add_zero]
      have hsplit := ih hnext
      rwa [List.append_assoc, List.singleton_append] at hsplit

/-- **A reply is split right**: into at most eight messages that Discord accepts, which together are the reply; only a reply of
more than eight times 1999 units may be shortened, to seven messages from its start and the notice. -/
theorem split_reply_exact (text : Text) : Split text (splitReply text) := by
  have hstart : Cut [] [] [] 0 := ⟨rfl, by decide, fun _ hc => absurd hc List.not_mem_nil, rfl, Nat.zero_le _⟩
  exact splitLoop_split hstart text

end AnimaCore.Discord
