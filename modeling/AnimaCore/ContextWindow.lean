import AnimaCore.HotTail

/-!
# AnimaCore.ContextWindow — which of a session's messages a run sends

`context_window.rs`: `select_context` keeps the newest whole turns that a token budget pays for, behind the messages a
summary stands for, and `cap_images` turns all but the newest images of what is kept into text.

* An estimator is what the host brings: `u64` costs of messages and texts.  `rawEstimator` is `TokenEstimator` without its
  calibration, which is floating point; `json` is the text of a `DataValue`.
* `u64` sums wrap.
* `Kept` says what a selection is for, in terms of suffixes: the longest affordable one made of whole turns.
-/

namespace AnimaCore.ContextWindow

open Lib RunDelta HotTail

def charsPerToken : ℕ := 4

def messageOverheadTokens : ℕ := 8

def maxContextImages : ℕ := 4

structure ContextTokenEstimator where
  messageTokens : Message → ℕ
  textTokens : String → ℕ
  textTokens_lt : ∀ text, textTokens text < 2 ^ 64

def divCeil (a b : ℕ) : ℕ := (a + b - 1) / b

def ordinaryContentTokens (json : DataValue → String) (content : Content) : ℕ :=
  let text := content.text.toList.length
  let calls := (content.metadata.bind (dataGet "toolCalls")).elim 0 fun calls => (json calls).toList.length
  divCeil text charsPerToken + messageOverheadTokens + divCeil calls charsPerToken

def rawMessageTokens (json : DataValue → String) (message : Message) : ℕ := ordinaryContentTokens json message.content

structure ContextSummary where
  text : String
  throughMessageId : String
  deriving DecidableEq, Repr

structure ContextSelection where
  messages : List Message
  dropped : List Message
  summarized : ℕ
  estimatedTokens : ℕ
  deriving DecidableEq

/-! ## Images -/

/-- The inner loop of `cap_images`: the images counted so far, the attachments that stay, the lines for the others. -/
def capAttachments (kept : ℕ) : List RunDelta.Attachment → ℕ × List RunDelta.Attachment × List String
  | [] => (kept, [], [])
  | attachment :: rest =>
    if attachment.attachmentType ≠ .image then
      let (kept, remaining, notes) := capAttachments kept rest
      (kept, attachment :: remaining, notes)
    else if kept < maxContextImages then
      let (kept, remaining, notes) := capAttachments (kept + 1) rest
      (kept, attachment :: remaining, notes)
    else
      let (kept, remaining, notes) := capAttachments kept rest
      (kept, remaining, ("[image: " ++ attachment.name ++ " (" ++ attachment.data ++ ")]") :: notes)

/-- What `cap_images` does with one message. -/
def capMessage (kept : ℕ) (message : Message) : ℕ × Message :=
  match message.content.attachments with
  | none => (kept, message)
  | some attachments =>
    let (kept, remaining, notes) := capAttachments kept attachments
    let text := notes.foldl (fun text note => text ++ "\n" ++ note) message.content.text
    let attachments := if remaining = [] then none else some remaining
    (kept, { message with content := { message.content with text, attachments } })

/-- The loop of `cap_images`, from the newest message: the images counted and the messages written so far. -/
def capFrom (messages : List Message) : ℕ × List Message :=
  messages.foldr (fun message acc => ((capMessage acc.1 message).1, (capMessage acc.1 message).2 :: acc.2)) (0, [])

def capImages (messages : List Message) : List Message := (capFrom messages).2

/-! ## Selection -/

def turnCost (estimator : ContextTokenEstimator) (messages : List Message) : ℕ :=
  (messages.map estimator.messageTokens).sum % 2 ^ 64

/-- The loop of `select_context` over the turns, the newest first: `remaining`, `spent` and `keep_from`. -/
def keepTurns (estimator : ContextTokenEstimator) (candidates : List Message) :
    List (ℕ × ℕ) → ℕ × ℕ × ℕ → ℕ × ℕ × ℕ
  | [], acc => acc
  | (start, stop) :: older, (remaining, spent, keepFrom) =>
    let cost := turnCost estimator ((candidates.drop start).take (stop - start))
    if remaining < cost then (remaining, spent, keepFrom)
    else keepTurns estimator candidates older (remaining - cost, (spent + cost) % 2 ^ 64, start)

/-- The `covered` of `select_context`: how many messages the summary stands for. -/
def covered (history : List Message) (summary : Option ContextSummary) : ℕ :=
  (summary.bind fun summary => history.findIdx? (·.id == summary.throughMessageId)).elim 0 (· + 1)

/-- The `summary_tokens` of `select_context`. -/
def summaryTokens (estimator : ContextTokenEstimator) (summary : Option ContextSummary) : ℕ :=
  summary.elim 0 fun summary => estimator.textTokens summary.text

def selectContext (history : List Message) (summary : Option ContextSummary) (budgetTokens : ℕ)
    (estimator : ContextTokenEstimator) : ContextSelection :=
  let covered := covered history summary
  let candidates := history.drop covered
  let summaryTokens := summaryTokens estimator summary
  let starts := turnStarts candidates
  match starts.head? with
  | none => { messages := [], dropped := [], summarized := covered, estimatedTokens := summaryTokens }
  | some firstTurn =>
    let turns := starts.zip (starts.tail ++ [candidates.length])
    let (_, spent, keepFrom) :=
      keepTurns estimator candidates turns.reverse (budgetTokens - summaryTokens, 0, candidates.length)
    { messages := capImages (candidates.drop keepFrom)
      dropped := (candidates.drop firstTurn).take (keepFrom - firstTurn)
      summarized := covered
      estimatedTokens := (summaryTokens + spent) % 2 ^ 64 }

/-! ## What a selection is for -/

variable {estimator : ContextTokenEstimator} {history messages candidates kept : List Message}
  {summary : Option ContextSummary} {budget : ℕ}

def cost (estimator : ContextTokenEstimator) (messages : List Message) : ℕ := (messages.map estimator.messageTokens).sum

/-- Whole turns: no message, or a user message first. -/
def WholeTurns (messages : List Message) : Prop := ∀ m, messages.head? = some m → startsTurn m = true

/-- `kept` is the longest affordable suffix of whole turns, among the messages the summary does not cover. -/
structure Kept (estimator : ContextTokenEstimator) (history : List Message) (summary : Option ContextSummary)
    (budget : ℕ) (kept : List Message) : Prop where
  isSuffix : kept <:+ history.drop (covered history summary)
  whole : WholeTurns kept
  affordable : cost estimator kept ≤ budget - summaryTokens estimator summary
  longest : ∀ s, s <:+ history.drop (covered history summary) → WholeTurns s →
    cost estimator s ≤ budget - summaryTokens estimator summary → s <:+ kept

def imagesOf (attachments : List RunDelta.Attachment) : ℕ := attachments.countP (·.attachmentType = .image)

def images (messages : List Message) : ℕ := (messages.map fun m => imagesOf (m.content.attachments.getD [])).sum

@[simp] theorem cost_nil : cost estimator [] = 0 := rfl

@[simp] theorem cost_append (l r : List Message) : cost estimator (l ++ r) = cost estimator l + cost estimator r := by
  simp [cost]

theorem cost_le_of_suffix (h : messages <:+ candidates) : cost estimator messages ≤ cost estimator candidates := by
  obtain ⟨front, rfl⟩ := h
  rw [cost_append]
  omega

theorem Kept.unique {other : List Message} (h : Kept estimator history summary budget kept)
    (h' : Kept estimator history summary budget other) : kept = other := by
  have hle := h'.longest kept h.isSuffix h.whole h.affordable
  have hge := h.longest other h'.isSuffix h'.whole h'.affordable
  exact hle.eq_of_length (le_antisymm hle.length_le hge.length_le)

/-! ## The loop over the turns -/

theorem keepTurns_spec {lead : List Message} {segs : List (List Message)} (tail : List Message) (remaining spent : ℕ)
    (hsum : cost estimator (lead ++ segs.flatten ++ tail) < 2 ^ 64) (hspent : spent + cost estimator segs.flatten < 2 ^ 64) :
    ∃ older newer : List (List Message), segs = older ++ newer ∧ cost estimator newer.flatten ≤ remaining ∧
      (∀ s ∈ older.getLast?, remaining < cost estimator s + cost estimator newer.flatten) ∧
      keepTurns estimator (lead ++ segs.flatten ++ tail) (spans lead.length segs).reverse
          (remaining, spent, (lead ++ segs.flatten).length) =
        (remaining - cost estimator newer.flatten, spent + cost estimator newer.flatten, (lead ++ older.flatten).length) := by
  induction segs using List.reverseRecOn generalizing tail remaining spent with
  | nil =>
    refine ⟨[], [], rfl, by simp, by simp, ?_⟩
    simp [spans, keepTurns]
  | append_singleton segs s ih =>
    have hflat : lead ++ (segs ++ [s]).flatten ++ tail = lead ++ segs.flatten ++ (s ++ tail) := by simp
    rw [hflat] at hsum ⊢
    have hslice : ((lead ++ segs.flatten ++ (s ++ tail)).drop (lead.length + segs.flatten.length)).take
        (lead.length + segs.flatten.length + s.length - (lead.length + segs.flatten.length)) = s := by
      rw [← List.length_append, List.drop_left, Nat.add_sub_cancel_left, List.take_left]
    have hcost : turnCost estimator s = cost estimator s := by
      unfold turnCost
      simp only [cost_append] at hsum
      exact Nat.mod_eq_of_lt (by show cost estimator s < _; omega)
    rw [spans_concat, List.reverse_append, List.reverse_singleton, List.singleton_append, keepTurns, hslice, hcost]
    rw [List.flatten_append, List.flatten_singleton, cost_append] at hspent
    by_cases hlt : remaining < cost estimator s
    · rw [if_pos hlt]
      refine ⟨segs ++ [s], [], by simp, by simp, ?_, by simp⟩
      intro t ht
      obtain rfl : s = t := by simpa using ht
      simpa using hlt
    · rw [if_neg hlt]
      have hmod : (spent + cost estimator s) % 2 ^ 64 = spent + cost estimator s := Nat.mod_eq_of_lt (by omega)
      obtain ⟨older, newer, hsegs, hle, hlast, hrun⟩ :=
        ih (s ++ tail) (remaining - cost estimator s) (spent + cost estimator s) hsum (by omega)
      rw [List.length_append] at hrun
      rw [hmod, hrun]
      refine ⟨older, newer ++ [s], by simp [hsegs], ?_, ?_, ?_⟩
      · rw [List.flatten_append, List.flatten_singleton, cost_append]
        omega
      · intro t ht
        have := hlast t ht
        rw [List.flatten_append, List.flatten_singleton, cost_append]
        omega
      · rw [List.flatten_append, List.flatten_singleton, cost_append]
        refine Prod.ext (by show _ - _ - _ = _ - _; omega) (Prod.ext (by show _ + _ + _ = _ + _; omega) rfl)

theorem longest_of_turns {lead : List Message} {older newer : List (List Message)} {remaining : ℕ}
    (hlead : ∀ m ∈ lead, startsTurn m = false) (holder : ∀ s ∈ older, Segment startsTurn s)
    (hlast : ∀ s ∈ older.getLast?, remaining < cost estimator s + cost estimator newer.flatten) {s : List Message}
    (hs : s <:+ lead ++ (older ++ newer).flatten) (hwhole : WholeTurns s) (hcost : cost estimator s ≤ remaining) :
    s <:+ newer.flatten := by
  rw [List.flatten_append, ← List.append_assoc] at hs
  rcases List.suffix_or_suffix_of_suffix hs (List.suffix_append _ newer.flatten) with hin | hin
  · exact hin
  · obtain ⟨x, rfl⟩ := hin
    have hx : x <:+ lead ++ older.flatten := ((List.suffix_append_inj_of_length_eq rfl).mp hs).1
    cases x with
    | nil => exact List.suffix_rfl
    | cons a rest =>
      have ha : startsTurn a = true := hwhole a rfl
      rcases List.eq_nil_or_concat older with rfl | ⟨front, t, rfl⟩
      · have hmem : a ∈ lead := by
          rw [List.flatten_nil, List.append_nil] at hx
          exact hx.subset List.mem_cons_self
        rw [hlead a hmem] at ha
        exact absurd ha (by decide)
      · have hseg : Segment startsTurn t := holder t (by simp)
        have hlt := hlast t (by simp)
        rw [List.concat_eq_append, List.flatten_append, List.flatten_singleton, ← List.append_assoc] at hx
        have ht : t <:+ a :: rest := segment_suffix hseg hx rfl ha
        have hle : cost estimator t ≤ cost estimator (a :: rest) := cost_le_of_suffix ht
        rw [cost_append] at hcost
        omega

theorem keepTurns_kept (remaining : ℕ) (hsum : cost estimator candidates < 2 ^ 64) :
    ∃ dropped kept : List Message,
      candidates = (segments startsTurn candidates).1 ++ dropped ++ kept ∧
      WholeTurns kept ∧ cost estimator kept ≤ remaining ∧
      (∀ s, s <:+ candidates → WholeTurns s → cost estimator s ≤ remaining → s <:+ kept) ∧
      keepTurns estimator candidates
          ((turnStarts candidates).zip ((turnStarts candidates).tail ++ [candidates.length])).reverse
          (remaining, 0, candidates.length) =
        (remaining - cost estimator kept, cost estimator kept, ((segments startsTurn candidates).1 ++ dropped).length) := by
  have hjoin : (segments startsTurn candidates).1 ++ (segments startsTurn candidates).2.flatten = candidates :=
    segments_join candidates
  have hlead : ∀ m ∈ (segments startsTurn candidates).1, startsTurn m = false := mark_of_mem_fst candidates
  have hsegs : ∀ s ∈ (segments startsTurn candidates).2, Segment startsTurn s := segment_of_mem candidates
  generalize (segments startsTurn candidates).1 = lead at hjoin hlead ⊢
  generalize (segments startsTurn candidates).2 = segs at hjoin hsegs
  subst hjoin
  have hspent : 0 + cost estimator segs.flatten < 2 ^ 64 := by
    rw [cost_append] at hsum
    omega
  obtain ⟨older, newer, rfl, hle, hlast, hrun⟩ :=
    keepTurns_spec [] remaining 0 (by rwa [List.append_nil]) hspent
  have holder : ∀ s ∈ older, Segment startsTurn s := fun s hs => hsegs s (List.mem_append_left _ hs)
  have hnewer : ∀ s ∈ newer, Segment startsTurn s := fun s hs => hsegs s (List.mem_append_right _ hs)
  refine ⟨older.flatten, newer.flatten, by simp, ?_, hle, ?_, ?_⟩
  · cases newer with
    | nil => exact fun m hm => by simp at hm
    | cons s newer =>
      obtain ⟨a, rest, rfl, ha, -⟩ := hnewer s List.mem_cons_self
      intro m hm
      obtain rfl : a = m := by simpa using hm
      exact ha
  · exact fun s hs hwhole hcost => longest_of_turns hlead holder hlast hs hwhole hcost
  · unfold turnStarts
    rw [zip_starts hsegs lead hlead]
    rw [List.append_nil, Nat.zero_add] at hrun
    exact hrun

/-! ## The images -/

variable {count : ℕ}

theorem imagesOf_cons (attachment : RunDelta.Attachment) (rest : List RunDelta.Attachment) :
    imagesOf (attachment :: rest) = imagesOf rest + if attachment.attachmentType = .image then 1 else 0 := by
  simp [imagesOf, List.countP_cons]

theorem capAttachments_spec (attachments : List RunDelta.Attachment) (hcount : count ≤ maxContextImages) :
    (capAttachments count attachments).1 = count + imagesOf (capAttachments count attachments).2.1 ∧
      (capAttachments count attachments).1 ≤ maxContextImages := by
  induction attachments generalizing count with
  | nil => exact ⟨rfl, hcount⟩
  | cons attachment rest ih =>
    unfold capAttachments
    by_cases himage : attachment.attachmentType ≠ .image
    · rw [if_pos himage]
      obtain ⟨h1, h2⟩ := ih hcount
      refine ⟨?_, h2⟩
      show (capAttachments count rest).1 = count + imagesOf (attachment :: (capAttachments count rest).2.1)
      rw [imagesOf_cons, if_neg himage]
      exact h1
    · rw [if_neg himage]
      have himage := not_not.mp himage
      by_cases hlt : count < maxContextImages
      · rw [if_pos hlt]
        obtain ⟨h1, h2⟩ := ih (show count + 1 ≤ maxContextImages from hlt)
        refine ⟨?_, h2⟩
        show (capAttachments (count + 1) rest).1 = count + imagesOf (attachment :: (capAttachments (count + 1) rest).2.1)
        rw [imagesOf_cons, if_pos himage]
        omega
      · rw [if_neg hlt]
        exact ih hcount

@[simp] theorem images_nil : images [] = 0 := rfl

@[simp] theorem images_cons (m : Message) (messages : List Message) :
    images (m :: messages) = imagesOf (m.content.attachments.getD []) + images messages := rfl

theorem capMessage_spec (m : Message) (hcount : count ≤ maxContextImages) :
    (capMessage count m).1 = count + imagesOf ((capMessage count m).2.content.attachments.getD []) ∧
      (capMessage count m).1 ≤ maxContextImages ∧ (capMessage count m).2.role = m.role := by
  unfold capMessage
  cases hatt : m.content.attachments with
  | none =>
    refine ⟨?_, hcount, rfl⟩
    show count = count + imagesOf (m.content.attachments.getD [])
    rw [hatt]
    rfl
  | some attachments =>
    obtain ⟨h1, h2⟩ := capAttachments_spec attachments hcount
    refine ⟨?_, h2, rfl⟩
    simp only
    split_ifs with hnil
    · rw [hnil] at h1
      exact h1
    · exact h1

theorem capFrom_spec (messages : List Message) :
    (capFrom messages).1 = images (capFrom messages).2 ∧ (capFrom messages).1 ≤ maxContextImages ∧
      (capFrom messages).2.map (·.role) = messages.map (·.role) := by
  induction messages with
  | nil => exact ⟨rfl, by decide, rfl⟩
  | cons m messages ih =>
    obtain ⟨h1, h2, h3⟩ := ih
    obtain ⟨c1, c2, c3⟩ := capMessage_spec m h2
    refine ⟨?_, c2, ?_⟩
    · show (capMessage (capFrom messages).1 m).1 =
        imagesOf ((capMessage (capFrom messages).1 m).2.content.attachments.getD []) + images (capFrom messages).2
      rw [c1, ← h1]
      omega
    · show (capMessage (capFrom messages).1 m).2.role :: (capFrom messages).2.map (·.role) = _
      rw [c3, h3]
      rfl

theorem images_capImages (messages : List Message) : images (capImages messages) ≤ maxContextImages := by
  obtain ⟨h1, h2, -⟩ := capFrom_spec messages
  rw [capImages, ← h1]
  exact h2

theorem WholeTurns.capImages (h : WholeTurns messages) : WholeTurns (capImages messages) := by
  intro m hm
  have hroles := (capFrom_spec messages).2.2
  have hhead : (messages.map (·.role)).head? = some m.role := by
    rw [← hroles, List.head?_map]
    show (ContextWindow.capImages messages).head?.map _ = _
    rw [hm]
    rfl
  rw [List.head?_map, Option.map_eq_some_iff] at hhead
  obtain ⟨m', hm', hrole⟩ := hhead
  have hstart := h m' hm'
  unfold startsTurn at hstart ⊢
  rwa [← hrole]

/-! ## The selection -/

/-- What `select_context` returns, but for the sum its estimate is: `kept` are the messages it sends, before their images
are capped. -/
structure Describes (estimator : ContextTokenEstimator) (history : List Message) (summary : Option ContextSummary)
    (budget : ℕ) (selection : ContextSelection) (kept : List Message) : Prop where
  summarized : selection.summarized = covered history summary
  parts : history = history.take selection.summarized ++
    (history.drop selection.summarized).takeWhile (fun m => !startsTurn m) ++ selection.dropped ++ kept
  isKept : Kept estimator history summary budget kept
  messages : selection.messages = capImages kept
  whole : WholeTurns selection.messages
  fewImages : images selection.messages ≤ maxContextImages
  withinBudget : summaryTokens estimator summary ≤ budget → selection.estimatedTokens ≤ budget

theorem selectContext_eq {dropped : List Message}
    (hparts : history.drop (covered history summary) =
      (segments startsTurn (history.drop (covered history summary))).1 ++ dropped ++ kept)
    (hrun : keepTurns estimator (history.drop (covered history summary))
        ((turnStarts (history.drop (covered history summary))).zip
          ((turnStarts (history.drop (covered history summary))).tail ++
            [(history.drop (covered history summary)).length])).reverse
        (budget - summaryTokens estimator summary, 0, (history.drop (covered history summary)).length) =
      (budget - summaryTokens estimator summary - cost estimator kept, cost estimator kept,
        ((segments startsTurn (history.drop (covered history summary))).1 ++ dropped).length))
    (hwrap : summaryTokens estimator summary + cost estimator kept < 2 ^ 64) :
    selectContext history summary budget estimator =
      { messages := capImages kept, dropped, summarized := covered history summary
        estimatedTokens := summaryTokens estimator summary + cost estimator kept } := by
  have hjoin : (segments startsTurn (history.drop (covered history summary))).1 ++
      (segments startsTurn (history.drop (covered history summary))).2.flatten = history.drop (covered history summary) :=
    segments_join _
  have hhead : (starts startsTurn (history.drop (covered history summary))).head? =
      (segments startsTurn (history.drop (covered history summary))).2.head?.map
        fun _ => (segments startsTurn (history.drop (covered history summary))).1.length := head?_starts _
  unfold selectContext
  simp only
  generalize hcand : history.drop (covered history summary) = candidates at *
  cases hsegs : (segments startsTurn candidates).2 with
  | nil =>
    rw [hsegs] at hhead hjoin
    have hnone : (turnStarts candidates).head? = none := hhead
    rw [List.flatten_nil, List.append_nil] at hjoin
    rw [hjoin, List.append_assoc, List.self_eq_append_right, List.append_eq_nil_iff] at hparts
    obtain ⟨rfl, rfl⟩ := hparts
    rw [hnone]
    rfl
  | cons s segs =>
    rw [hsegs] at hhead
    have hsome : (turnStarts candidates).head? = some (segments startsTurn candidates).1.length := hhead
    rw [hsome]
    simp only [hrun]
    rw [Nat.mod_eq_of_lt hwrap]
    generalize (segments startsTurn candidates).1 = lead at hparts ⊢
    have hdropped : (candidates.drop lead.length).take ((lead ++ dropped).length - lead.length) = dropped := by
      rw [hparts, List.length_append, Nat.add_sub_cancel_left, List.append_assoc, List.drop_left, List.take_left]
    have hmessages : candidates.drop (lead ++ dropped).length = kept := by
      rw [hparts, List.drop_left]
    rw [hdropped, hmessages]

theorem selectContext_spec (summary : Option ContextSummary) (hbudget : budget < 2 ^ 64)
    (hsum : cost estimator history < 2 ^ 64) :
    ∃ kept, Describes estimator history summary budget (selectContext history summary budget estimator) kept ∧
      (selectContext history summary budget estimator).estimatedTokens =
        summaryTokens estimator summary + cost estimator kept := by
  have hcand : cost estimator (history.drop (covered history summary)) < 2 ^ 64 :=
    lt_of_le_of_lt (cost_le_of_suffix (List.drop_suffix _ _)) hsum
  obtain ⟨dropped, kept, hparts, hwhole, hle, hlongest, hrun⟩ :=
    keepTurns_kept (budget - summaryTokens estimator summary) hcand
  have hkept : Kept estimator history summary budget kept := ⟨⟨_, hparts.symm⟩, hwhole, hle, hlongest⟩
  have hsummary : summaryTokens estimator summary < 2 ^ 64 := by
    cases summary with
    | none => exact Nat.two_pow_pos 64
    | some summary => exact estimator.textTokens_lt summary.text
  have hselect := selectContext_eq hparts hrun (by omega)
  have hsplit : history = history.take (covered history summary) ++
      (history.drop (covered history summary)).takeWhile (fun m => !startsTurn m) ++ dropped ++ kept := by
    rw [← segments_fst, List.append_assoc, List.append_assoc, ← List.append_assoc _ dropped, ← hparts,
      List.take_append_drop]
  rw [hselect]
  refine ⟨kept, ⟨rfl, hsplit, hkept, rfl, hwhole.capImages, images_capImages kept, ?_⟩, rfl⟩
  intro hfits
  show summaryTokens estimator summary + cost estimator kept ≤ budget
  omega

/-! ## The ordinary estimate of capped images -/

/-- `TokenEstimator` without its calibration. -/
def rawEstimator (json : DataValue → String) : ContextTokenEstimator where
  messageTokens := rawMessageTokens json
  textTokens text := (divCeil text.toList.length charsPerToken + messageOverheadTokens) % 2 ^ 64
  textTokens_lt _ := Nat.mod_lt _ (Nat.two_pow_pos 64)

variable {json : DataValue → String}

/-! ## When the estimate is right -/

/-- The whole of what `select_context` says of its selection, the estimate of the messages it returns included. -/
def Exact (estimator : ContextTokenEstimator) (history : List Message) (summary : Option ContextSummary) (budget : ℕ) :
    Prop :=
  ∃ kept, Describes estimator history summary budget (selectContext history summary budget estimator) kept ∧
    (selectContext history summary budget estimator).estimatedTokens =
      summaryTokens estimator summary + cost estimator (selectContext history summary budget estimator).messages

theorem exact_iff (hbudget : budget < 2 ^ 64) (hsum : cost estimator history < 2 ^ 64) :
    Exact estimator history summary budget ↔
      ∀ kept, Kept estimator history summary budget kept → cost estimator (capImages kept) = cost estimator kept := by
  obtain ⟨kept, hdesc, hestimate⟩ := selectContext_spec summary hbudget hsum
  unfold Exact
  rw [hestimate]
  constructor
  · rintro ⟨-, -, heq⟩ kept' hkept'
    obtain rfl := hkept'.unique hdesc.isKept
    rw [← hdesc.messages]
    omega
  · intro hsame
    refine ⟨kept, hdesc, ?_⟩
    rw [hdesc.messages, hsame kept hdesc.isKept]

def fiveImages : Message where
  id := "u1"
  agentId := "agent-1"
  roomId := "chat:a"
  content :=
    { text := "look", metadata := none
      attachments := some (List.replicate 5
        { attachmentType := .image, name := "a.png", data := "uploads/a.png", mimeType := some "image/png" }) }
  role := .user
  createdAtMs := 1

/-- The ordinary estimate of messages that call no tools. -/
def plainEstimator : ContextTokenEstimator := rawEstimator fun _ => ""

end AnimaCore.ContextWindow
