import Mathlib
import AnimaCore.Lib.Framing

/-!
# AnimaCore.StreamFrames — splitting a provider's stream into events

A provider's reply arrives in network chunks.  `BoundedFrameReader` keeps what has not been handed out yet and cuts frames
off its front: SSE events, which end at a blank line, or NDJSON lines.

* `eventBoundary`, `ndjsonBoundary`: where the first frame ends.
* `BoundedFrameReader.push`, `nextFrame`: one chunk in, one frame out; `readChunks`: the loop of every consumer.
-/

namespace AnimaCore.StreamFrames

open AnimaCore.Lib

/-- Bytes of a response. -/
abbrev Bytes := List UInt8

def lf : UInt8 := 10

def cr : UInt8 := 13

/-! ## Boundaries -/

/-- The loop of `event_boundary`: the newlines from `start` on, at most `n` of them. -/
def eventBoundaryFrom (bytes : Bytes) : ℕ → ℕ → Option (ℕ × ℕ)
  | 0, _ => none
  | n + 1, start =>
    match (bytes.drop start).findIdx? (· == lf) with
    | none => none
    | some offset =>
      if bytes[start + offset + 1]? = some lf then some (start + offset, 2)
      else if 0 < start + offset ∧ bytes[start + offset - 1]? = some cr ∧
          bytes[start + offset + 1]? = some cr ∧ bytes[start + offset + 2]? = some lf then
        some (start + offset - 1, 4)
      else eventBoundaryFrom bytes n (start + offset + 1)

/-- The earliest blank line that ends an SSE event. -/
def eventBoundary (bytes : Bytes) : Option (ℕ × ℕ) := eventBoundaryFrom bytes (bytes.length + 1) 0

def ndjsonBoundary (bytes : Bytes) : Option (ℕ × ℕ) := (bytes.findIdx? (· == lf)).map (fun index => (index, 1))

/-! ## The reader -/

def maxStreamBytes : ℕ := 64 * 1024 * 1024

def maxStreamEventBytes : ℕ := 256 * 1024

def usizeMax : ℕ := 2 ^ 64 - 1

def streamParseError : String := "provider stream parse failed"

def fromUtf8 (bytes : Bytes) : Option String := String.fromUTF8? bytes.toByteArray

/-- What has arrived, how much of it is handed out, and how much has arrived over the whole stream. -/
structure BoundedFrameReader where
  pending : Bytes
  consumed : ℕ
  totalBytes : ℕ

namespace BoundedFrameReader

def new : BoundedFrameReader := ⟨[], 0, 0⟩

def remainder (r : BoundedFrameReader) : Bytes := r.pending.drop r.consumed

/-- One more chunk; the handed out bytes are dropped only here. -/
def push (r : BoundedFrameReader) (chunk : Bytes) : Except String BoundedFrameReader :=
  let totalBytes := min (r.totalBytes + chunk.length) usizeMax
  if totalBytes > maxStreamBytes then .error streamParseError
  else .ok { pending := r.pending.drop r.consumed ++ chunk, consumed := 0, totalBytes := totalBytes }

def nextFrame (boundary : Bytes → Option (ℕ × ℕ)) (r : BoundedFrameReader) :
    Except String (Option String × BoundedFrameReader) :=
  match boundary r.remainder with
  | none => if r.remainder.length > maxStreamEventBytes then .error streamParseError else .ok (none, r)
  | some (index, delimiter) =>
    if index > maxStreamEventBytes then .error streamParseError
    else
      match fromUtf8 (r.remainder.take index) with
      | none => .error streamParseError
      | some frame => .ok (some frame, { r with consumed := r.consumed + (index + delimiter) })

/-- The inner loop of a consumer: frames until there is none, or an error.  Every frame takes at least one byte, so the
fuel of `readChunk` is enough (`drainFrames_settled`). -/
def drainFrames (boundary : Bytes → Option (ℕ × ℕ)) :
    ℕ → BoundedFrameReader → List String × Except String BoundedFrameReader
  | 0, r => ([], .ok r)
  | n + 1, r =>
    match r.nextFrame boundary with
    | .error e => ([], .error e)
    | .ok (none, after) => ([], .ok after)
    | .ok (some frame, after) => (frame :: (drainFrames boundary n after).1, (drainFrames boundary n after).2)

/-- The outer loop: one chunk is pushed and the frames it completes are taken. -/
def readChunk (boundary : Bytes → Option (ℕ × ℕ)) (s : List String × Except String BoundedFrameReader) (chunk : Bytes) :
    List String × Except String BoundedFrameReader :=
  match s.2 with
  | .error _ => s
  | .ok r =>
    match r.push chunk with
    | .error e => (s.1, .error e)
    | .ok r => (s.1 ++ (r.drainFrames boundary (r.remainder.length + 1)).1,
        (r.drainFrames boundary (r.remainder.length + 1)).2)

/-- A stream: the frames, and the reader at the end or the error that ended it. -/
def readChunks (boundary : Bytes → Option (ℕ × ℕ)) (chunks : List Bytes) :
    List String × Except String BoundedFrameReader :=
  chunks.foldl (readChunk boundary) ([], .ok new)

/-- What a consumer sees of a stream: the frames, and the remainder or the error. -/
def outcome (boundary : Bytes → Option (ℕ × ℕ)) (chunks : List Bytes) : List String × Except String Bytes :=
  ((readChunks boundary chunks).1, (readChunks boundary chunks).2.map remainder)

end BoundedFrameReader

/-! ## Blank lines -/

/-- A blank line of `d` bytes starts at `p`: two newlines, or two carriage-return newline pairs. -/
def BlankLineAt (bytes : Bytes) (p d : ℕ) : Prop :=
  (d = 2 ∧ bytes[p]? = some lf ∧ bytes[p + 1]? = some lf) ∨
  (d = 4 ∧ bytes[p]? = some cr ∧ bytes[p + 1]? = some lf ∧ bytes[p + 2]? = some cr ∧ bytes[p + 3]? = some lf)

def FirstBlankLine (bytes : Bytes) (p d : ℕ) : Prop :=
  BlankLineAt bytes p d ∧ ∀ q e, BlankLineAt bytes q e → p ≤ q

theorem lf_ne_cr : lf ≠ cr := by decide

theorem BlankLineAt.unique {bytes : Bytes} {p d e : ℕ} (h : BlankLineAt bytes p d) (h' : BlankLineAt bytes p e) : d = e := by
  rcases h with ⟨rfl, h, -⟩ | ⟨rfl, h, -⟩
  · rcases h' with ⟨rfl, h', -⟩ | ⟨rfl, h', -⟩
    · rfl
    · rw [h] at h'
      exact absurd (Option.some.inj h') lf_ne_cr
  · rcases h' with ⟨rfl, h', -⟩ | ⟨rfl, h', -⟩
    · rw [h] at h'
      exact absurd (Option.some.inj h').symm lf_ne_cr
    · rfl

theorem FirstBlankLine.unique {bytes : Bytes} {p d q e : ℕ} (h : FirstBlankLine bytes p d) (h' : FirstBlankLine bytes q e) :
    p = q ∧ d = e := by
  have hpq : p = q := le_antisymm (h.2 q e h'.1) (h'.2 p d h.1)
  subst hpq
  exact ⟨rfl, h.1.unique h'.1⟩

theorem BlankLineAt.newline {bytes : Bytes} {p d : ℕ} (h : BlankLineAt bytes p d) :
    ∃ i, bytes[i]? = some lf ∧ p ≤ i ∧ i ≤ p + 1 ∧ (i = p ↔ d = 2) ∧ (i = p + 1 ↔ d = 4) := by
  rcases h with ⟨rfl, h, -⟩ | ⟨rfl, -, h, -⟩
  · exact ⟨p, h, by omega, by omega, by omega, by omega⟩
  · exact ⟨p + 1, h, by omega, by omega, by omega, by omega⟩

theorem eventBoundaryFrom_spec (bytes : Bytes) : ∀ (n start : ℕ), bytes.length < start + n →
    (∀ q e, BlankLineAt bytes q e → start ≤ q ∨ (start = q + 1 ∧ e = 4)) →
    (∀ p d, eventBoundaryFrom bytes n start = some (p, d) → FirstBlankLine bytes p d) ∧
    (eventBoundaryFrom bytes n start = none → ∀ q e, ¬ BlankLineAt bytes q e) := by
  intro n
  induction n with
  | zero =>
    intro start hn hseen
    refine ⟨fun p d h => absurd h (by simp [eventBoundaryFrom]), fun _ q e hblank => ?_⟩
    obtain ⟨i, hi, hle, hle', -, -⟩ := hblank.newline
    have hlt : i < bytes.length := (List.getElem?_eq_some_iff.mp hi).1
    have := hseen q e hblank
    omega
  | succ n ih =>
    intro start hn hseen
    unfold eventBoundaryFrom
    rcases hfind : (bytes.drop start).findIdx? (· == lf) with _ | offset
    · refine ⟨fun p d h => absurd h (by simp), fun _ q e hblank => ?_⟩
      obtain ⟨i, hi, hle, hle', htwo, hfour⟩ := hblank.newline
      have hstart : start ≤ i := by
        have := hseen q e hblank
        omega
      have hmem : lf ∈ bytes.drop start := by
        refine List.mem_iff_getElem?.mpr ⟨i - start, ?_⟩
        rw [List.getElem?_drop, show start + (i - start) = i by omega]
        exact hi
      have := List.findIdx?_eq_none_iff.mp hfind lf hmem
      simp at this
    · obtain ⟨hlen, hat, hbefore⟩ := List.findIdx?_eq_some_iff_getElem.mp hfind
      simp only
      set i := start + offset with hi
      have hnewline : bytes[i]? = some lf := by
        rw [List.getElem_drop] at hat
        simp only [beq_iff_eq] at hat
        rw [List.length_drop] at hlen
        rw [List.getElem?_eq_getElem (by omega)]
        simp only [hi, hat]
      -- A newline from `start` on is not before this one.
      have hfirst : ∀ j, start ≤ j → bytes[j]? = some lf → i ≤ j := by
        intro j hj hjlf
        by_contra hlt
        have := hbefore (j - start) (by omega)
        rw [List.getElem_drop] at this
        obtain ⟨hjlen, hjeq⟩ := List.getElem?_eq_some_iff.mp hjlf
        apply this
        simp only [show start + (j - start) = j by omega, hjeq, beq_self_eq_true]
      -- So a blank line starts here, or one byte before, or later.
      have hfrom : ∀ q e, BlankLineAt bytes q e → i ≤ q ∨ (i = q + 1 ∧ e = 4) := by
        intro q e hblank
        obtain ⟨j, hj, hle, hle', htwo, hfour⟩ := hblank.newline
        have hstart : start ≤ j := by
          have := hseen q e hblank
          omega
        have := hfirst j hstart hj
        omega
      split_ifs with h2 h4
      · refine ⟨fun p d h => ?_, fun h => absurd h (by simp)⟩
        obtain ⟨rfl, rfl⟩ : i = p ∧ 2 = d := by simpa using h
        refine ⟨.inl ⟨rfl, hnewline, h2⟩, fun q e hblank => ?_⟩
        rcases hfrom q e hblank with hle | ⟨hq, rfl⟩
        · exact hle
        · rcases hblank with ⟨h, -⟩ | ⟨-, -, -, hcr, -⟩
          · omega
          · rw [show q + 2 = i + 1 by omega, h2] at hcr
            exact absurd (Option.some.inj hcr) lf_ne_cr
      · refine ⟨fun p d h => ?_, fun h => absurd h (by simp)⟩
        obtain ⟨hpos, hcr, hcr', hlf'⟩ := h4
        obtain ⟨rfl, rfl⟩ : i - 1 = p ∧ 4 = d := by simpa using h
        refine ⟨.inr ⟨rfl, hcr, ?_, ?_, ?_⟩, fun q e hblank => ?_⟩
        · rwa [show i - 1 + 1 = i by omega]
        · rwa [show i - 1 + 2 = i + 1 by omega]
        · rwa [show i - 1 + 3 = i + 2 by omega]
        · have := hfrom q e hblank
          omega
      · refine ih (i + 1) (by omega) (fun q e hblank => ?_)
        rcases hfrom q e hblank with hle | ⟨hq, rfl⟩
        · rcases hle.lt_or_eq with hlt | rfl
          · exact .inl hlt
          · rcases hblank with ⟨-, -, hlf⟩ | ⟨-, hcr, -⟩
            · exact absurd hlf h2
            · rw [hnewline] at hcr
              exact absurd (Option.some.inj hcr) lf_ne_cr
        · rcases hblank with ⟨h, -⟩ | ⟨-, hcr, -, hcr', hlf'⟩
          · omega
          · refine absurd ⟨by omega, ?_, ?_, ?_⟩ h4
            · rwa [show i - 1 = q by omega]
            · rwa [show i + 1 = q + 2 by omega]
            · rwa [show i + 2 = q + 3 by omega]

theorem eventBoundary_spec (bytes : Bytes) : (∀ p d, eventBoundary bytes = some (p, d) → FirstBlankLine bytes p d) ∧
    (eventBoundary bytes = none → ∀ q e, ¬ BlankLineAt bytes q e) :=
  eventBoundaryFrom_spec bytes (bytes.length + 1) 0 (by omega) (fun _ _ _ => .inl (Nat.zero_le _))

theorem eventBoundary_eq_some (bytes : Bytes) (p d : ℕ) : eventBoundary bytes = some (p, d) ↔ FirstBlankLine bytes p d := by
  obtain ⟨hsome, hnone⟩ := eventBoundary_spec bytes
  refine ⟨hsome p d, fun hfirst => ?_⟩
  rcases hb : eventBoundary bytes with _ | ⟨q, e⟩
  · exact absurd hfirst.1 (hnone hb p d)
  · obtain ⟨rfl, rfl⟩ := (hsome q e hb).unique hfirst
    rfl

/-! ## The boundaries are stable -/

theorem BlankLineAt.inside {bytes : Bytes} {p d : ℕ} (h : BlankLineAt bytes p d) : 0 < d ∧ p + d ≤ bytes.length := by
  rcases h with ⟨rfl, -, h⟩ | ⟨rfl, -, -, -, h⟩
  · have := (List.getElem?_eq_some_iff.mp h).1
    omega
  · have := (List.getElem?_eq_some_iff.mp h).1
    omega

theorem blankLineAt_append {x y : Bytes} {p d : ℕ} (hin : p + d ≤ x.length) :
    BlankLineAt (x ++ y) p d ↔ BlankLineAt x p d := by
  unfold BlankLineAt
  by_cases h2 : d = 2
  · subst h2
    rw [List.getElem?_append_left (by omega), List.getElem?_append_left (by omega)]
    simp
  · by_cases h4 : d = 4
    · subst h4
      rw [List.getElem?_append_left (i := p) (by omega), List.getElem?_append_left (i := p + 1) (by omega),
        List.getElem?_append_left (i := p + 2) (by omega), List.getElem?_append_left (i := p + 3) (by omega)]
    · simp [h2, h4]

theorem BlankLineAt.ends_first {bytes : Bytes} {p d q e : ℕ} (h : BlankLineAt bytes p d) (h' : BlankLineAt bytes q e)
    (hlt : q < p) : q + e ≤ p + d := by
  rcases h' with ⟨rfl, -⟩ | ⟨rfl, -, -, hcr, -⟩
  · have := h.inside
    rcases h with ⟨rfl, -⟩ | ⟨rfl, -⟩
    · omega
    · omega
  · rcases h with ⟨rfl, -, hlf⟩ | ⟨rfl, -⟩
    · -- Two newlines from the second byte of the pairs on would be a newline where the pairs have a carriage return.
      by_contra hend
      rw [show p + 1 = q + 2 by omega, hcr] at hlf
      exact absurd (Option.some.inj hlf).symm lf_ne_cr
    · omega

theorem eventBoundary_stable : Stable eventBoundary where
  inside x i d h := ((eventBoundary_eq_some x i d).mp h).1.inside
  extend x y r h := by
    obtain ⟨p, d⟩ := r
    rw [eventBoundary_eq_some] at h ⊢
    obtain ⟨hblank, hfirst⟩ := h
    have hblank' : BlankLineAt (x ++ y) p d := (blankLineAt_append hblank.inside.2).mpr hblank
    refine ⟨hblank', fun q e hq => ?_⟩
    by_contra hlt
    -- An earlier one would end before this one does, so it would have been there already.
    have hend := hblank'.ends_first hq (by omega)
    have hin := hblank.inside
    have := hfirst q e ((blankLineAt_append (by omega)).mp hq)
    omega
  restrict x y i d h hin := by
    rw [eventBoundary_eq_some] at h ⊢
    obtain ⟨hblank, hfirst⟩ := h
    refine ⟨(blankLineAt_append hin).mp hblank, fun q e hq => ?_⟩
    exact hfirst q e ((blankLineAt_append hq.inside.2).mpr hq)

theorem ndjsonBoundary_eq_some (bytes : Bytes) (p d : ℕ) : ndjsonBoundary bytes = some (p, d) ↔
    d = 1 ∧ bytes[p]? = some lf ∧ ∀ q, bytes[q]? = some lf → p ≤ q := by
  unfold ndjsonBoundary
  simp only [Option.map_eq_some_iff, Prod.mk.injEq]
  constructor
  · rintro ⟨index, hfind, rfl, rfl⟩
    obtain ⟨hlen, hat, hbefore⟩ := List.findIdx?_eq_some_iff_getElem.mp hfind
    refine ⟨rfl, ?_, fun q hq => ?_⟩
    · rw [List.getElem?_eq_getElem hlen]
      exact congrArg some (beq_iff_eq.mp hat)
    · by_contra hlt
      obtain ⟨hqlen, hqeq⟩ := List.getElem?_eq_some_iff.mp hq
      exact hbefore q (by omega) (by rw [hqeq]; exact beq_self_eq_true lf)
  · rintro ⟨rfl, hat, hfirst⟩
    obtain ⟨hlen, heq⟩ := List.getElem?_eq_some_iff.mp hat
    refine ⟨p, List.findIdx?_eq_some_iff_getElem.mpr ⟨hlen, by rw [heq]; exact beq_self_eq_true lf, fun q hq hlf => ?_⟩,
      rfl, rfl⟩
    have hqlen : q < bytes.length := by omega
    have := hfirst q (by rw [List.getElem?_eq_getElem hqlen]; exact congrArg some (beq_iff_eq.mp hlf))
    omega

theorem ndjsonBoundary_stable : Stable ndjsonBoundary where
  inside x i d h := by
    obtain ⟨rfl, hat, -⟩ := (ndjsonBoundary_eq_some x i d).mp h
    have := (List.getElem?_eq_some_iff.mp hat).1
    omega
  extend x y r h := by
    obtain ⟨p, d⟩ := r
    rw [ndjsonBoundary_eq_some] at h ⊢
    obtain ⟨rfl, hat, hfirst⟩ := h
    have hlen := (List.getElem?_eq_some_iff.mp hat).1
    refine ⟨rfl, by rwa [List.getElem?_append_left hlen], fun q hq => ?_⟩
    by_contra hlt
    rw [List.getElem?_append_left (by omega)] at hq
    exact hlt (hfirst q hq)
  restrict x y i d h hin := by
    rw [ndjsonBoundary_eq_some] at h ⊢
    obtain ⟨rfl, hat, hfirst⟩ := h
    rw [List.getElem?_append_left (by omega)] at hat
    refine ⟨rfl, hat, fun q hq => hfirst q ?_⟩
    rwa [List.getElem?_append_left (List.getElem?_eq_some_iff.mp hq).1]

/-! ## The reader is a framer -/

/-- The frames of a boundary, as the reader bounds and decodes them. -/
def framer (boundary : Bytes → Option (ℕ × ℕ)) : Framer UInt8 String := ⟨boundary, fromUtf8, maxStreamEventBytes⟩

/-- How the reader tells the result of a framer. -/
def told (s : List String × Option Bytes) : List String × Except String Bytes :=
  (s.1, s.2.elim (.error streamParseError) .ok)

theorem told_injective : Function.Injective told := by
  rintro ⟨frames, rest⟩ ⟨frames', rest'⟩ h
  rcases rest with _ | rest
  · rcases rest' with _ | rest'
    · simpa [told] using h
    · simp [told] at h
  · rcases rest' with _ | rest'
    · simp [told] at h
    · simpa [told] using h

namespace BoundedFrameReader

variable {boundary : Bytes → Option (ℕ × ℕ)} {r : BoundedFrameReader}

theorem remainder_consume (r : BoundedFrameReader) (used : ℕ) :
    remainder { r with consumed := r.consumed + used } = r.remainder.drop used := by
  unfold remainder
  rw [List.drop_drop]

/-- What the reader makes of the front of its remainder. -/
def answer (r : BoundedFrameReader) : Look String → Except String (Option String × BoundedFrameReader)
  | .short => .ok (none, r)
  | .bad => .error streamParseError
  | .frame frame used => .ok (some frame, { r with consumed := r.consumed + used })

theorem nextFrame_eq (boundary : Bytes → Option (ℕ × ℕ)) (r : BoundedFrameReader) :
    r.nextFrame boundary = r.answer ((framer boundary).look r.remainder) := by
  simp only [nextFrame, Framer.look, framer]
  rcases boundary r.remainder with _ | ⟨index, delimiter⟩
  · by_cases hlong : maxStreamEventBytes < r.remainder.length
    · simp [hlong, answer]
    · simp [hlong, answer]
  · by_cases hlong : maxStreamEventBytes < index
    · simp [hlong, answer]
    · rcases hd : fromUtf8 (r.remainder.take index) with _ | frame
      · simp [hlong, hd, answer]
      · simp [hlong, hd, answer]

theorem drainFrames_told (boundary : Bytes → Option (ℕ × ℕ)) : ∀ (n : ℕ) (r : BoundedFrameReader),
    ((r.drainFrames boundary n).1, (r.drainFrames boundary n).2.map remainder) =
      told ((framer boundary).drain n r.remainder) ∧
    ∀ after, (r.drainFrames boundary n).2 = .ok after → after.totalBytes = r.totalBytes := by
  intro n
  induction n with
  | zero =>
    intro r
    refine ⟨rfl, fun after h => ?_⟩
    obtain rfl : r = after := by simpa [drainFrames] using h
    rfl
  | succ n ih =>
    intro r
    unfold drainFrames Framer.drain
    rcases hlook : (framer boundary).look r.remainder with _ | _ | ⟨frame, used⟩
    · rw [nextFrame_eq, hlook]
      refine ⟨rfl, fun after h => ?_⟩
      obtain rfl : r = after := by simpa [answer] using h
      rfl
    · rw [nextFrame_eq, hlook]
      exact ⟨rfl, fun after h => absurd h (by simp [answer])⟩
    · rw [nextFrame_eq, hlook]
      obtain ⟨htold, htotal⟩ := ih { r with consumed := r.consumed + used }
      rw [remainder_consume] at htold
      have hframes := congrArg Prod.fst htold
      have hrest := congrArg Prod.snd htold
      simp only at hframes hrest
      refine ⟨?_, htotal⟩
      simp only [answer]
      rw [hframes, hrest]
      rfl

theorem drainFrames_settled (hs : Stable boundary) : ∀ (n : ℕ) (r after : BoundedFrameReader), r.remainder.length < n →
    (r.drainFrames boundary n).2 = .ok after → after.nextFrame boundary = .ok (none, after) := by
  intro n
  induction n with
  | zero => intro r after hn; omega
  | succ n ih =>
    intro r after hn h
    unfold drainFrames at h
    rcases hlook : (framer boundary).look r.remainder with _ | _ | ⟨frame, used⟩
    · rw [nextFrame_eq, hlook] at h
      obtain rfl : r = after := by simpa [answer] using h
      rw [nextFrame_eq, hlook]
      rfl
    · rw [nextFrame_eq, hlook] at h
      exact absurd h (by simp [answer])
    · rw [nextFrame_eq, hlook] at h
      have hused : 0 < used ∧ used ≤ r.remainder.length := Framer.look_frame_used (F := framer boundary) hs hlook
      refine ih _ after ?_ h
      rw [remainder_consume, List.length_drop]
      omega

theorem readChunks_concat (boundary : Bytes → Option (ℕ × ℕ)) (chunks : List Bytes) (chunk : Bytes) :
    readChunks boundary (chunks ++ [chunk]) = readChunk boundary (readChunks boundary chunks) chunk := by
  unfold readChunks
  rw [List.foldl_append]
  rfl

theorem push_ok {chunk : Bytes} (h : r.totalBytes + chunk.length ≤ maxStreamBytes) : r.push chunk =
    .ok { pending := r.remainder ++ chunk, consumed := 0, totalBytes := r.totalBytes + chunk.length } := by
  have hsat : min (r.totalBytes + chunk.length) usizeMax = r.totalBytes + chunk.length := by
    refine min_eq_left (le_trans h ?_)
    decide
  unfold push
  simp only [hsat]
  rw [if_neg (by omega)]
  rfl

theorem readChunks_told (boundary : Bytes → Option (ℕ × ℕ)) (chunks : List Bytes)
    (hmax : chunks.flatten.length ≤ maxStreamBytes) :
    outcome boundary chunks = told ((framer boundary).read chunks) ∧
    ∀ r, (readChunks boundary chunks).2 = .ok r → r.totalBytes = chunks.flatten.length := by
  induction chunks using List.reverseRecOn with
  | nil =>
    refine ⟨rfl, fun r h => ?_⟩
    obtain rfl : new = r := by simpa [readChunks] using h
    rfl
  | append_singleton chunks chunk ih =>
    rw [List.flatten_append, List.flatten_singleton, List.length_append] at hmax ⊢
    obtain ⟨htold, htotal⟩ := ih (by omega)
    have hframes := congrArg Prod.fst htold
    have hrest := congrArg Prod.snd htold
    unfold outcome at hframes hrest ⊢
    rw [readChunks_concat, Framer.read_concat]
    unfold readChunk Framer.feed
    simp only at hframes hrest
    rcases hr : (readChunks boundary chunks).2 with e | r
    · -- After an error nothing more is read.
      rw [hr] at hrest
      rcases ht : ((framer boundary).read chunks).2 with _ | rest
      · simp only [hr]
        exact ⟨by rw [← htold, outcome, hr], fun r h => absurd h (by simp)⟩
      · simp [told, ht, Except.map] at hrest
    · rw [hr] at hrest
      rcases ht : ((framer boundary).read chunks).2 with _ | rest
      · simp [told, ht, Except.map] at hrest
      · obtain rfl : r.remainder = rest := by simpa [told, ht, Except.map] using hrest
        have hbytes := htotal r hr
        simp only
        rw [push_ok (by omega)]
        obtain ⟨hdrain, hkept⟩ := drainFrames_told boundary ((r.remainder ++ chunk).length + 1)
          { pending := r.remainder ++ chunk, consumed := 0, totalBytes := r.totalBytes + chunk.length }
        have hdrained := congrArg Prod.fst hdrain
        have hleft := congrArg Prod.snd hdrain
        simp only at hdrained hleft
        refine ⟨?_, fun after h => ?_⟩
        · refine Prod.ext ?_ ?_
          · show _ ++ _ = _ ++ _
            rw [hframes]
            exact congrArg _ hdrained
          · exact hleft
        · have := hkept after h
          simp only at this
          omega

end BoundedFrameReader

/-! ## What the chunks can change -/

open BoundedFrameReader

def FramesAlike (boundary : Bytes → Option (ℕ × ℕ)) (bytes : Bytes) : Prop :=
  ∀ chunks chunks', chunks.flatten = bytes → chunks'.flatten = bytes → outcome boundary chunks = outcome boundary chunks'

/-- An event at the front of the bytes that can be delivered: `p` bytes of text and a blank line of `d`. -/
def EventAt (bytes : Bytes) (p d : ℕ) : Prop :=
  FirstBlankLine bytes p d ∧ p ≤ maxStreamEventBytes ∧ (fromUtf8 (bytes.take p)).isSome

/-- What is left of the bytes behind some whole events. -/
inductive Leaves : Bytes → Bytes → Prop
  | all (bytes : Bytes) : Leaves bytes bytes
  | event {bytes rest : Bytes} {p d : ℕ} : EventAt bytes p d → Leaves (bytes.drop (p + d)) rest → Leaves bytes rest

/-- No event that can be delivered reaches, with its delimiter, more than one byte past the bound. -/
def EventsHaveRoom (bytes : Bytes) : Prop :=
  ∀ rest p d, Leaves bytes rest → EventAt rest p d → p + d ≤ maxStreamEventBytes + 1

theorem look_eq_frame {bytes : Bytes} {frame : String} {used : ℕ}
    (h : (framer eventBoundary).look bytes = .frame frame used) :
    ∃ p d, EventAt bytes p d ∧ used = p + d := by
  obtain ⟨p, d, hb, hmax, hd, rfl⟩ := Framer.look_frame h
  have hd' : fromUtf8 (bytes.take p) = some frame := hd
  exact ⟨p, d, ⟨(eventBoundary_eq_some bytes p d).mp hb, hmax, by rw [hd']; rfl⟩, rfl⟩

theorem EventAt.look {bytes : Bytes} {p d : ℕ} (h : EventAt bytes p d) :
    ∃ frame, fromUtf8 (bytes.take p) = some frame ∧ (framer eventBoundary).look bytes = .frame frame (p + d) := by
  obtain ⟨hfirst, hmax, hd⟩ := h
  obtain ⟨frame, hframe⟩ := Option.isSome_iff_exists.mp hd
  have hb : (framer eventBoundary).boundary bytes = some (p, d) := (eventBoundary_eq_some bytes p d).mpr hfirst
  exact ⟨frame, hframe, Framer.look_of_boundary hb hmax hframe⟩

theorem EventAt.unique {bytes : Bytes} {p d q e : ℕ} (h : EventAt bytes p d) (h' : EventAt bytes q e) : p + d = q + e := by
  obtain ⟨rfl, rfl⟩ := h.1.unique h'.1
  rfl

theorem roomy_iff (bytes : Bytes) : (framer eventBoundary).Roomy bytes ↔ EventsHaveRoom bytes := by
  have hs : Stable (framer eventBoundary).boundary := eventBoundary_stable
  induction bytes using Framer.frame_induction hs with
  | hend bytes hno =>
    have hnone : ∀ p d, ¬ EventAt bytes p d := by
      intro p d hevent
      obtain ⟨frame, -, hlook⟩ := hevent.look
      exact hno _ _ hlook
    refine ⟨fun _ rest p d hleaves hevent => ?_, fun _ => Framer.roomy_of_look hno⟩
    rcases hleaves with _ | ⟨hfront, -⟩
    · exact absurd hevent (hnone p d)
    · exact absurd hfront (hnone _ _)
  | hframe bytes frame used hlook hused ih =>
    have hbehind : (framer eventBoundary).Roomy (bytes.drop used) ↔ EventsHaveRoom (bytes.drop used) := ih
    rw [Framer.roomy_frame hs hlook, hbehind]
    obtain ⟨p, d, hevent, rfl⟩ := look_eq_frame hlook
    constructor
    · rintro ⟨hfits, hbehind⟩ rest q e hleaves hevent'
      rcases hleaves with _ | ⟨hfront, hleaves⟩
      · rw [hevent'.unique hevent]
        exact hfits
      · rw [hfront.unique hevent] at hleaves
        exact hbehind rest q e hleaves hevent'
    · intro h
      exact ⟨h bytes p d (.all bytes) hevent, fun rest q e hleaves => h rest q e (.event hevent hleaves)⟩

theorem look_nil {boundary : Bytes → Option (ℕ × ℕ)} (h : boundary [] = none) : (framer boundary).look [] = .short := by
  simp [Framer.look, framer, h]

theorem look_long {boundary : Bytes → Option (ℕ × ℕ)} {bytes : Bytes} (hb : boundary bytes = none)
    (h : maxStreamEventBytes < bytes.length) : (framer boundary).look bytes = .bad :=
  Framer.look_long (F := framer boundary) hb h

theorem framesAlike_iff {boundary : Bytes → Option (ℕ × ℕ)} (hs : Stable boundary) (hnil : boundary [] = none)
    (bytes : Bytes) (hmax : bytes.length ≤ maxStreamBytes) :
    FramesAlike boundary bytes ↔ (framer boundary).Roomy bytes := by
  have hs' : Stable (framer boundary).boundary := hs
  rw [← Framer.independent_iff hs' (look_nil hnil)]
  refine forall_congr' fun chunks => forall_congr' fun chunks' => forall_congr' fun hx => forall_congr' fun hx' => ?_
  rw [(readChunks_told boundary chunks (by rw [hx]; exact hmax)).1,
    (readChunks_told boundary chunks' (by rw [hx']; exact hmax)).1]
  exact told_injective.eq_iff

/-- **The chunks do not matter to the frames** of a stream exactly when its events have room for their delimiters: the
lines of NDJSON always have, and the boundary of an event is the earliest blank line in any case. -/
theorem frames_alike_iff_events_have_room (bytes : Bytes) (hmax : bytes.length ≤ maxStreamBytes) :
    (FramesAlike eventBoundary bytes ∧ FramesAlike ndjsonBoundary bytes ∧
      ∀ p d, eventBoundary bytes = some (p, d) ↔ FirstBlankLine bytes p d) ↔
    EventsHaveRoom bytes := by
  have hlines : FramesAlike ndjsonBoundary bytes := by
    refine (framesAlike_iff ndjsonBoundary_stable rfl bytes hmax).mpr ?_
    refine Framer.roomy_of_one (F := framer ndjsonBoundary) ndjsonBoundary_stable (fun x i d h => ?_) bytes
    exact ((ndjsonBoundary_eq_some x i d).mp h).1
  have hevents : FramesAlike eventBoundary bytes ↔ EventsHaveRoom bytes := by
    rw [framesAlike_iff eventBoundary_stable rfl bytes hmax, roomy_iff]
  rw [hevents]
  exact ⟨fun h => h.1, fun h => ⟨h, hlines, eventBoundary_eq_some bytes⟩⟩

theorem Leaves.length_le {bytes rest : Bytes} (h : Leaves bytes rest) : rest.length ≤ bytes.length := by
  induction h with
  | all => rfl
  | event _ _ ih =>
    rw [List.length_drop] at ih
    omega

theorem eventsHaveRoom_of_length {bytes : Bytes} (h : bytes.length ≤ maxStreamEventBytes + 1) : EventsHaveRoom bytes := by
  intro rest p d hleaves hevent
  have hlen := hleaves.length_le
  have hin := hevent.1.1.inside
  omega

theorem frames_alike_for_one_event :
    (FramesAlike eventBoundary [97, 10, 10] ∧ FramesAlike ndjsonBoundary [97, 10, 10] ∧
      ∀ p d, eventBoundary [97, 10, 10] = some (p, d) ↔ FirstBlankLine [97, 10, 10] p d) :=
  (frames_alike_iff_events_have_room [97, 10, 10] (by decide)).mpr (eventsHaveRoom_of_length (by decide))

/-! ## A cut in a delimiter -/

/-- An event of `n` letters. -/
def letters (n : ℕ) : Bytes := List.replicate n 97

theorem letters_getElem? {n i : ℕ} (h : i < n) (y : Bytes) : (letters n ++ y)[i]? = some 97 := by
  unfold letters
  rw [List.getElem?_append_left (by simpa using h), List.getElem?_replicate, if_pos h]

theorem letters_utf8 (n : ℕ) : (fromUtf8 (letters n)).isSome := by
  have hencode : (letters n).toByteArray = (List.replicate n 'a').utf8Encode := by
    unfold letters List.utf8Encode
    congr 1
    induction n with
    | zero => rfl
    | succ n ih =>
      rw [List.replicate_succ, List.replicate_succ, List.flatMap_cons, ← ih]
      rfl
  unfold fromUtf8 String.fromUTF8?
  rw [hencode, dif_pos ByteArray.isValidUTF8_utf8Encode]
  rfl

theorem letters_blank {n : ℕ} {y : Bytes} {p d : ℕ} (h : BlankLineAt (letters n ++ y) p d) : n ≤ p := by
  by_contra hlt
  have hat := letters_getElem? (show p < n by omega) y
  rcases h with ⟨-, h, -⟩ | ⟨-, h, -⟩
  · rw [hat] at h
    exact absurd h (by decide)
  · rw [hat] at h
    exact absurd h (by decide)

theorem letters_event {n : ℕ} (h : n ≤ maxStreamEventBytes) : EventAt (letters n ++ [lf, lf]) n 2 := by
  have hlen : (letters n).length = n := List.length_replicate
  refine ⟨⟨.inl ⟨rfl, ?_, ?_⟩, fun q e => letters_blank⟩, h, ?_⟩
  · rw [List.getElem?_append_right (by omega), hlen, Nat.sub_self]
    rfl
  · rw [List.getElem?_append_right (by omega), hlen, Nat.add_sub_cancel_left]
    rfl
  · rw [List.take_left' hlen]
    exact letters_utf8 n

/-- **A cut in a delimiter**: an event of the greatest size is delivered when its blank line arrives in one chunk, and is an
error when the two newlines arrive in two. -/
theorem framing_depends_on_cut :
    (letters maxStreamEventBytes ++ [lf, lf]).length ≤ maxStreamBytes ∧
    (outcome eventBoundary [letters maxStreamEventBytes ++ [lf, lf]]).1.length = 1 ∧
    outcome eventBoundary [letters maxStreamEventBytes ++ [lf], [lf]] = ([], .error streamParseError) ∧
    ¬ FramesAlike eventBoundary (letters maxStreamEventBytes ++ [lf, lf]) := by
  have hlen : (letters maxStreamEventBytes).length = maxStreamEventBytes := List.length_replicate
  have hmax : (letters maxStreamEventBytes ++ [lf, lf]).length ≤ maxStreamBytes := by
    rw [List.length_append, hlen]
    decide
  have hroom : ¬ EventsHaveRoom (letters maxStreamEventBytes ++ [lf, lf]) := by
    intro h
    have := h _ _ _ (.all _) (letters_event le_rfl)
    omega
  refine ⟨hmax, ?_, ?_, fun h => hroom ?_⟩
  · have hs : Stable (framer eventBoundary).boundary := eventBoundary_stable
    obtain ⟨frame, -, hlook⟩ := (letters_event (le_refl maxStreamEventBytes)).look
    have hdrop : (letters maxStreamEventBytes ++ [lf, lf]).drop (maxStreamEventBytes + 2) = [] := by
      rw [List.drop_eq_nil_iff, List.length_append, hlen]
      rfl
    rw [(readChunks_told eventBoundary _ (by simpa using hmax)).1, Framer.read_singleton, Framer.whole_frame hs hlook, hdrop,
      Framer.whole_short (look_nil rfl)]
    rfl
  · -- With the first newline the event is too long, and there is no blank line yet.
    have hnone : eventBoundary (letters maxStreamEventBytes ++ [lf]) = none := by
      rcases hb : eventBoundary (letters maxStreamEventBytes ++ [lf]) with _ | ⟨p, d⟩
      · rfl
      · have hblank := ((eventBoundary_eq_some _ p d).mp hb).1
        have hin := hblank.inside.2
        rw [List.length_append, hlen, List.length_singleton] at hin
        have hp := letters_blank hblank
        rcases hblank with ⟨rfl, -⟩ | ⟨rfl, -⟩
        · omega
        · omega
    have hlong : maxStreamEventBytes < (letters maxStreamEventBytes ++ [lf]).length := by
      rw [List.length_append, hlen]
      exact Nat.lt_succ_self _
    have hbad : (framer eventBoundary).look (letters maxStreamEventBytes ++ [lf]) = .bad := look_long hnone hlong
    have hwhole := Framer.whole_bad hbad
    rw [(readChunks_told eventBoundary _ (by simpa [Nat.add_assoc] using hmax)).1,
      Framer.read_pair_of_bad (by rw [hwhole]), hwhole]
    rfl
  · rw [← roomy_iff]
    exact (framesAlike_iff eventBoundary_stable rfl _ hmax).mp h

end AnimaCore.StreamFrames
