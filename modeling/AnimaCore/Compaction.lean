import AnimaCore.HotTail

/-!
# AnimaCore.Compaction — what the summarizer is given

`sessions/compaction.rs` with `model_visible` of `sessions/context.rs`: the transcript of the turns that leave a run's context, and
the turns read back from the history store once they have left the control plane.

* A text that is put together here is the list of its characters.
* `transcript` keeps the newest lines that fit; `prunedTurns` reads pages of the store, newest first.
* The store is the list of its rows; `pageMessages` is the read of `history/memory.rs`.
* The loop over the pages has fuel, and gives the pages it has read along with its result.
-/

namespace AnimaCore.Compaction

open RunDelta HotTail AnimaMemory

def maxCompactionMessageChars : ℕ := 4000

def prunedPageRows : ℕ := 200

abbrev Text := List Char

def messageTruncation : Text := "… [message truncated for compaction]".toList

/-! ## The transcript -/

def isDiscordMessage (message : Message) : Bool := "discord:".toList.isPrefixOf message.roomId.toList

def speaker (message : Message) : Text :=
  match message.role with
  | .user =>
    if isDiscordMessage message || "email:".toList.isPrefixOf message.roomId.toList then "Participant".toList
    else "Owner".toList
  | .assistant => "Companion".toList
  | .tool => "Tool result".toList
  | .system => "System".toList

/-- `shown_text`: the text, and whether it was cut. -/
def shownText (message : Message) : Text × Bool :=
  let text := (trim message.content.text).toList
  (text.take maxCompactionMessageChars, decide (maxCompactionMessageChars < text.length))

/-- The characters that any reader may take as a line break. -/
def isLineBreak (c : Char) : Bool :=
  let n := c.toNat
  c == '\n' || c == '\r' || n == 0x0B || n == 0x0C || n == 0x85 || n == 0x2028 || n == 0x2029

/-- `indented`, `indent`: each line break (a `\r\n` counts once) is a newline and two spaces. -/
def indent : Text → Text
  | '\r' :: '\n' :: rest => '\n' :: ' ' :: ' ' :: indent rest
  | c :: rest => if isLineBreak c then '\n' :: ' ' :: ' ' :: indent rest else c :: indent rest
  | [] => []

def transcriptLine (message : Message) : Text :=
  let shown := shownText message
  let ellipsis := if shown.2 then messageTruncation else []
  speaker message ++ ": ".toList ++ indent shown.1 ++ ellipsis

def transcriptChars (message : Message) : ℕ :=
  let shown := shownText message
  (speaker message).length + ": ".toList.length + (if shown.2 then messageTruncation.length else 0) + 1 +
    (indent shown.1).length

/-- The line cut to the characters that remain. -/
def shorten (line : Text) (remaining : ℕ) : Text :=
  line.take (remaining - messageTruncation.length) ++ messageTruncation.take (min remaining messageTruncation.length)

/-- The loop of `transcript`: the lines newest first. -/
def keepLines (maxChars : ℕ) : List Text → List Text → ℕ → List Text
  | [], kept, _ => kept
  | line :: older, kept, used =>
    let length := line.length + 1
    if maxChars < used + length then
      let remaining := maxChars - used
      if kept = [] ∨ messageTruncation.length + 32 < remaining then kept ++ [shorten line remaining] else kept
    else keepLines maxChars older (kept ++ [line]) (used + length)

def transcript (messages : List Message) (maxChars : ℕ) : Text :=
  ['\n'].intercalate (keepLines maxChars (messages.map transcriptLine).reverse [] 0).reverse

/-! ## What the model sees -/

def isRevisedDraft (message : Message) : Bool :=
  match message.content.metadata.bind (dataGet "revised") with
  | some (.bool true) => true
  | _ => false

/-- `model_visible`: each message with the one before it. -/
def modelVisible (room : List Message) : List Message :=
  let hidden := hiddenMessageIds room
  ((none :: room.map some).zip room).filterMap fun (previous, message) =>
    let revisionRequest := message.role == .system && previous.any isRevisedDraft
    if hidden.contains message.id || isRevisedDraft message || revisionRequest then none else some message

/-! ## The pruned turns -/

structure HistoryMessage where
  agentId : String
  sessionId : String
  hidden : Bool
  message : Message
  deriving DecidableEq

def HistoryMessage.order (row : HistoryMessage) : MessageOrder := messageOrder row.message

/-- `right.order().cmp(&left.order())`. -/
def compareNewest (left right : HistoryMessage) : Ordering := compare right.order left.order

def sessionRows (rows : List HistoryMessage) (agentId sessionId : String) : List HistoryMessage :=
  rows.filter fun row => row.agentId == agentId && row.sessionId == sessionId

/-- `page_messages` with a cursor and with hidden rows. -/
def pageMessages (rows : List HistoryMessage) (agentId sessionId : String) (before : MessageOrder) (limit : ℕ) :
    List HistoryMessage :=
  let rows := (sessionRows rows agentId sessionId).filter fun row => (compare row.order before).isLT
  (rows.mergeSort fun left right => (compareNewest left right).isLE).take limit

structure PrunedSpan where
  through : SessionPrunedThrough
  coveredId : Option String
  coveredOrder : Option MessageOrder

/-- The row is covered: the summary's last message, or not newer than its place. -/
def PrunedSpan.covers (span : PrunedSpan) (row : HistoryMessage) : Bool :=
  span.coveredId == some row.message.id || span.coveredOrder.any fun covered => (compare row.order covered).isLE

structure Progress where
  before : MessageOrder
  newestFirst : List Message := []
  chars : ℕ := 0

/-- The rows of one page; `true` once the whole read is over. -/
def readRows (span : PrunedSpan) (maxChars : ℕ) : Progress → List HistoryMessage → Progress × Bool
  | p, [] => (p, false)
  | p, row :: rows =>
    let p := { p with before := row.order }
    if (compare row.order span.through.order).isGT then readRows span maxChars p rows
    else if span.covers row then (p, true)
    else
      let p := { p with chars := p.chars + transcriptChars row.message, newestFirst := p.newestFirst ++ [row.message] }
      if startsTurn row.message ∧ maxChars ≤ p.chars then (p, true) else readRows span maxChars p rows

/-- The loop `'pages`, with the pages it has read; `none` when it has not ended within the fuel. -/
def readPages (rows : List HistoryMessage) (agentId sessionId : String) (span : PrunedSpan) (maxChars : ℕ) :
    ℕ → Progress → List (List HistoryMessage) → Option (Progress × List (List HistoryMessage))
  | 0, _, _ => none
  | fuel + 1, p, pages =>
    let page := pageMessages rows agentId sessionId p.before prunedPageRows
    let read := readRows span maxChars p page
    let pages := pages ++ [page]
    if read.2 ∨ page.length < prunedPageRows then some (read.1, pages)
    else readPages rows agentId sessionId span maxChars fuel read.1 pages

/-- The cursor of the first page: `saturating_add(1)`, and no ordinal or identifier. -/
def PrunedSpan.start (span : PrunedSpan) : MessageOrder := (min (span.through.createdAtMs + 1) (2 ^ 64 - 1), 0, "")

/-- The read of `pruned_turns`, with its pages. -/
def readSpan (rows : List HistoryMessage) (agentId sessionId : String) (span : PrunedSpan) (maxChars fuel : ℕ) :
    Option (Progress × List (List HistoryMessage)) :=
  readPages rows agentId sessionId span maxChars fuel { before := span.start } []

def prunedTurns (rows : List HistoryMessage) (agentId sessionId : String) (span : PrunedSpan) (maxChars fuel : ℕ) :
    Option (List Message) :=
  (readSpan rows agentId sessionId span maxChars fuel).map fun read => modelVisible read.1.newestFirst.reverse

end AnimaCore.Compaction
