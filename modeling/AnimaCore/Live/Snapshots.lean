import AnimaCore.Live.Registry

/-!
# AnimaCore.Live.Snapshots — the trimmed registry answers like one that keeps everything

* `FullRun` keeps the whole text of the step; its answers are read off that text.
* `Trimmed run full`: what the trimming has left of a run.  The newest part of the text is still there, so that nothing that was
  cut off is missed later (`newest_append_of_suffix`).
-/

namespace AnimaCore.Live

open Lib

/-! ## The registry that keeps everything -/

/-- The newest `MAX_SNAPSHOT_TEXT_BYTES` of a text. -/
def newestText (text : Text) : Text := newest Char.utf8Size maxSnapshotTextBytes text

structure FullRun where
  stepId : Option String := none
  text : Text := []
  tools : List LiveToolView := []

/-- A snapshot: the newest part, and the units before it. -/
def FullRun.snapshot (full : FullRun) : LiveRunView where
  stepId := full.stepId
  text := newestText full.text
  textOffset := utf16Len full.text - utf16Len (newestText full.text)
  tools := full.tools

/-- The runs with their whole texts. -/
abbrev FullRuns := Table String FullRun

namespace FullRuns

def serve (runs : FullRuns) : Call → FullRuns × Reply
  | .register runId => (if runId ∈ runs then runs else runs.insert runId {}, .done)
  | .remove runId => (runs.erase runId, .removed (decide (runId ∈ runs)))
  | .view runId => (runs, .view (runs[runId]?.map FullRun.snapshot))
  | .startStepAt runId stepId _ => (runs.modify runId ({ · with stepId := some stepId, text := [] }), .done)
  | .appendText runId text =>
    (runs.modify runId (fun full => { full with text := full.text ++ text }),
      .offset (runs[runId]?.map fun full => utf16Len full.text))
  | .toolStarted runId tool => (runs.modify runId (fun full => { full with tools := putCard full.tools tool }), .done)
  | .toolFinished runId stepId toolCallId status durationMs resultPreview truncated =>
    (runs.modify runId (fun full => { full with
      tools := modifyCard full.tools stepId toolCallId (·.finish status durationMs resultPreview truncated) }), .done)
  | .toolSources runId stepId callId sources =>
    (runs.modify runId (fun full => { full with tools := modifyCard full.tools stepId callId (·.setSources sources) }), .done)
  | .noteServed _ _ | .recordStepUsageAt _ _ _ _ => (runs, .done)

def serveAll (runs : FullRuns) : List Call → FullRuns × List Reply
  | [] => (runs, [])
  | call :: calls =>
    let (runs, reply) := runs.serve call
    let (runs, replies) := serveAll runs calls
    (runs, reply :: replies)

end FullRuns

/-- The text of the run's step after one more call; `none` while the run is not registered. -/
def textStep (runId : String) (text : Option Text) : Call → Option Text
  | .register id => if id = runId then some (text.getD []) else text
  | .remove id => if id = runId then none else text
  | .startStepAt id _ _ => if id = runId then text.map fun _ => [] else text
  | .appendText id more => if id = runId then text.map (· ++ more) else text
  | _ => text

/-- All text appended in the run's current step. -/
def stepText (runId : String) (calls : List Call) : Option Text := calls.foldl (textStep runId) none

/-! ## Texts -/

variable {text kept more dropped : Text} {run run' : LiveRunState} {full full' : FullRun} {runs : LiveRuns}
  {fulls : FullRuns} {runId : String}

theorem utf16Len_append : utf16Len (text ++ more) = utf16Len text + utf16Len more := weight_append

theorem newestText_suffix (text : Text) : newestText text <:+ text := newest_suffix _ text

theorem slices_tailCut (text : Text) :
    ∃ d, text = d ++ newestText text ∧ slices text (tailCut text) = some (d, newestText text) := by
  unfold slices tailCut newestText
  by_cases h : byteLen text < maxSnapshotTextBytes
  · rw [if_pos h, newest_eq_self (le_of_lt h)]
    exact ⟨[], rfl, by cases text <;> rfl⟩
  · rw [if_neg h]
    exact cutAt_nextBoundary Char.utf8Size_pos (Nat.le_of_not_lt h)

/-! ## The relation -/

/-- What is left of a run with the whole text `full.text`. -/
structure Trimmed (run : LiveRunState) (full : FullRun) : Prop where
  stepId : run.view.stepId = full.stepId
  tools : run.view.tools = full.tools
  text : ∃ dropped, full.text = dropped ++ run.view.text ∧ run.view.textOffset = utf16Len dropped
  units : run.textUnits = utf16Len run.view.text
  newest : newestText full.text <:+ run.view.text

def Refines (runs : LiveRuns) (fulls : FullRuns) : Prop := ∀ id : String, Option.Rel Trimmed runs[id]? fulls[id]?

theorem Trimmed.offset (h : Trimmed run full) : run.view.textOffset + run.textUnits = utf16Len full.text := by
  obtain ⟨dropped, htext, hoffset⟩ := h.text
  rw [hoffset, h.units, htext, utf16Len_append]

theorem Trimmed.newest_eq (h : Trimmed run full) : newestText run.view.text = newestText full.text := by
  obtain ⟨dropped, htext, -⟩ := h.text
  have := newest_append_of_suffix ⟨dropped, htext.symm⟩ h.newest []
  rwa [List.append_nil, List.append_nil] at this

theorem Trimmed.snapshot (h : Trimmed run full) : run.snapshot = some full.snapshot := by
  obtain ⟨dropped, htext, hoffset⟩ := h.text
  obtain ⟨cut, hkept, hslices⟩ := slices_tailCut run.view.text
  have hunits : utf16Len full.text = utf16Len dropped + (utf16Len cut + utf16Len (newestText run.view.text)) := by
    rw [← utf16Len_append, ← hkept, ← utf16Len_append, ← htext]
  rw [h.newest_eq] at hslices hunits
  have hcut : run.view.textOffset + utf16Len cut = utf16Len full.text - utf16Len (newestText full.text) := by omega
  unfold LiveRunState.snapshot FullRun.snapshot
  rw [hslices, ← hcut, ← h.stepId, ← h.tools]
  rfl

theorem trimmed_register : Trimmed {} {} where
  stepId := rfl
  tools := rfl
  text := ⟨[], rfl, rfl⟩
  units := rfl
  newest := List.suffix_rfl

theorem Trimmed.startStepAt (h : Trimmed run full) (stepId : String) (nowMs : ℕ) :
    Trimmed (run.startStepAt stepId nowMs) { full with stepId := some stepId, text := [] } where
  stepId := rfl
  tools := h.tools
  text := ⟨[], rfl, rfl⟩
  units := rfl
  newest := List.suffix_rfl

theorem Trimmed.push (h : Trimmed run full) (more : Text) :
    Trimmed { run with view := { run.view with text := run.view.text ++ more }, textUnits := run.textUnits + utf16Len more }
      { full with text := full.text ++ more } where
  stepId := h.stepId
  tools := h.tools
  text := by
    obtain ⟨dropped, htext, hoffset⟩ := h.text
    exact ⟨dropped, by rw [htext, List.append_assoc], hoffset⟩
  units := by
    show run.textUnits + utf16Len more = utf16Len (run.view.text ++ more)
    rw [h.units, utf16Len_append]
  newest := by
    obtain ⟨dropped, htext, -⟩ := h.text
    show newestText (full.text ++ more) <:+ run.view.text ++ more
    have := newest_append_of_suffix ⟨dropped, htext.symm⟩ h.newest more
    unfold newestText
    rw [← this]
    exact newest_suffix _ _

theorem Trimmed.trim (h : Trimmed run full) : ∃ run', run.trim = some run' ∧ Trimmed run' full := by
  obtain ⟨dropped, htext, hoffset⟩ := h.text
  obtain ⟨cut, hkept, hslices⟩ := slices_tailCut run.view.text
  have hunits : run.textUnits = utf16Len cut + utf16Len (newestText run.view.text) := by
    rw [h.units, ← utf16Len_append, ← hkept]
  have hsub : checkedSub run.textUnits (utf16Len cut) = some (utf16Len (newestText run.view.text)) := by
    unfold checkedSub
    rw [if_pos (by omega)]
    congr 1
    omega
  unfold LiveRunState.trim
  rw [hslices]
  simp only [Option.bind_eq_bind, Option.bind_some, hsub]
  refine ⟨_, rfl, ⟨h.stepId, h.tools, ⟨dropped ++ cut, ?_, ?_⟩, rfl, ?_⟩⟩
  · show full.text = dropped ++ cut ++ newestText run.view.text
    rw [List.append_assoc, ← hkept, htext]
  · show run.view.textOffset + utf16Len cut = utf16Len (dropped ++ cut)
    rw [hoffset, utf16Len_append]
  · show newestText full.text <:+ newestText run.view.text
    rw [h.newest_eq]

theorem Trimmed.appendText (h : Trimmed run full) (more : Text) :
    ∃ run', run.appendText more = some (run', utf16Len full.text) ∧
      Trimmed run' { full with text := full.text ++ more } := by
  unfold LiveRunState.appendText
  rw [h.offset]
  have hpush := h.push more
  by_cases hlen : 2 * maxSnapshotTextBytes < byteLen (run.view.text ++ more)
  · obtain ⟨run', htrim, hrun'⟩ := hpush.trim
    refine ⟨run', ?_, hrun'⟩
    simp only [if_pos hlen, htrim, Option.bind_eq_bind, Option.bind_some]
  · refine ⟨_, ?_, hpush⟩
    simp only [if_neg hlen, Option.bind_eq_bind, Option.bind_some]

theorem Trimmed.setTools (h : Trimmed run full) {tools : List LiveToolView} (names : List String) :
    Trimmed { run with view := { run.view with tools }, toolsStarted := names } { full with tools } where
  stepId := h.stepId
  tools := rfl
  text := h.text
  units := h.units
  newest := h.newest

theorem Trimmed.toolStarted (h : Trimmed run full) (tool : LiveToolView) :
    Trimmed (run.toolStarted tool) { full with tools := putCard full.tools tool } := by
  rw [← h.tools]
  exact h.setTools _

theorem Trimmed.modifyCard (h : Trimmed run full) (stepId toolCallId : String) (f : LiveToolView → LiveToolView) :
    Trimmed (run.modifyCard stepId toolCallId f) { full with tools := Live.modifyCard full.tools stepId toolCallId f } := by
  rw [← h.tools]
  exact h.setTools _

theorem Trimmed.noteServed (h : Trimmed run full) (served : ServedStep) : Trimmed (run.noteServed served) full :=
  ⟨h.stepId, h.tools, h.text, h.units, h.newest⟩

theorem Trimmed.recordStepUsageAt (h : Trimmed run full) (stepId : String) (usage : TokenUsage) (nowMs : ℕ) :
    Trimmed (run.recordStepUsageAt stepId usage nowMs) full := by
  unfold LiveRunState.recordStepUsageAt
  by_cases hlen : run.steps.length < maxRunSteps
  · rw [if_pos hlen]
    exact ⟨h.stepId, h.tools, h.text, h.units, h.newest⟩
  · rw [if_neg hlen]
    exact h

/-! ## The registries -/

theorem refines_empty : Refines ∅ ∅ := fun id => by
  have h1 : (∅ : LiveRuns)[id]? = none := by simp
  have h2 : (∅ : FullRuns)[id]? = none := by simp
  rw [h1, h2]
  exact .none

theorem Refines.mem_iff (h : Refines runs fulls) : runId ∈ runs ↔ runId ∈ fulls := by
  have hid := h runId
  rw [Table.mem_iff_getElem?_isSome, Table.mem_iff_getElem?_isSome]
  cases hr : runs[runId]? <;> cases hf : fulls[runId]? <;> rw [hr, hf] at hid <;> first | rfl | cases hid

theorem Refines.insert (h : Refines runs fulls) (ht : Trimmed run full) :
    Refines (runs.insert runId run) (fulls.insert runId full) := by
  intro id
  rw [Table.getElem?_insert_eq, Table.getElem?_insert_eq]
  by_cases hid : runId = id
  · rw [if_pos hid, if_pos hid]
    exact .some ht
  · rw [if_neg hid, if_neg hid]
    exact h id

theorem Refines.erase (h : Refines runs fulls) : Refines (runs.erase runId) (fulls.erase runId) := by
  intro id
  rw [Table.getElem?_erase_eq, Table.getElem?_erase_eq]
  by_cases hid : runId = id
  · rw [if_pos hid, if_pos hid]
    exact .none
  · rw [if_neg hid, if_neg hid]
    exact h id

theorem Refines.modify (h : Refines runs fulls) {f : LiveRunState → LiveRunState} {g : FullRun → FullRun}
    (hfg : ∀ run full, Trimmed run full → Trimmed (f run) (g full)) :
    Refines (runs.modify runId f) (fulls.modify runId g) := by
  intro id
  rw [Table.getElem?_modify_eq, Table.getElem?_modify_eq]
  by_cases hid : runId = id
  · rw [if_pos hid, if_pos hid]
    have := h runId
    cases hr : runs[runId]? <;> cases hf : fulls[runId]? <;> rw [hr, hf] at this <;> cases this
    · exact .none
    · exact .some (hfg _ _ ‹_›)
  · rw [if_neg hid, if_neg hid]
    exact h id

theorem Refines.modify_left (h : Refines runs fulls) {f : LiveRunState → LiveRunState}
    (hf : ∀ run full, Trimmed run full → Trimmed (f run) full) : Refines (runs.modify runId f) fulls := by
  have hmod : Refines (runs.modify runId f) (fulls.modify runId fun full => full) := h.modify hf
  have hsame : fulls.modify runId (fun full => full) = fulls := by
    apply Table.ext_getElem?
    intro id
    rw [Table.getElem?_modify_eq, Option.map_id']
    by_cases hid : runId = id
    · rw [if_pos hid, hid]
    · rw [if_neg hid]
  rwa [hsame] at hmod

theorem Refines.view (h : Refines runs fulls) (runId : String) :
    runs.view runId = some (fulls[runId]?.map FullRun.snapshot) := by
  unfold LiveRuns.view
  have hid := h runId
  cases hr : runs[runId]? <;> cases hf : fulls[runId]? <;> rw [hr, hf] at hid <;> cases hid
  · rfl
  · rename_i run full ht
    show run.snapshot.map some = _
    rw [ht.snapshot]
    rfl

theorem Refines.appendText (h : Refines runs fulls) (runId : String) (more : Text) :
    ∃ runs', runs.appendText runId more = some (runs', fulls[runId]?.map fun full => utf16Len full.text) ∧
      Refines runs' (fulls.modify runId fun full => { full with text := full.text ++ more }) := by
  unfold LiveRuns.appendText
  have hid := h runId
  cases hr : runs[runId]? <;> cases hf : fulls[runId]? <;> rw [hr, hf] at hid <;> cases hid
  · refine ⟨runs, rfl, ?_⟩
    intro id
    rw [Table.getElem?_modify_eq]
    by_cases ha : runId = id
    · rw [if_pos ha, hf, ← ha, hr]
      exact .none
    · rw [if_neg ha]
      exact h id
  · rename_i run full ht
    obtain ⟨run', happend, ht'⟩ := ht.appendText more
    refine ⟨runs.insert runId run', ?_, ?_⟩
    · show (run.appendText more).map _ = _
      rw [happend]
      rfl
    · intro id
      rw [Table.getElem?_modify_eq, Table.getElem?_insert_eq]
      by_cases ha : runId = id
      · rw [if_pos ha, if_pos ha, hf]
        exact .some ht'
      · rw [if_neg ha, if_neg ha]
        exact h id

theorem serve_refines (h : Refines runs fulls) (call : Call) :
    ∃ runs', runs.serve call = some (runs', (fulls.serve call).2) ∧ Refines runs' (fulls.serve call).1 := by
  cases call with
  | register runId =>
    refine ⟨_, rfl, ?_⟩
    show Refines (runs.register runId) (if runId ∈ fulls then fulls else fulls.insert runId {})
    unfold LiveRuns.register
    by_cases hmem : runId ∈ runs
    · rw [if_pos hmem, if_pos (h.mem_iff.mp hmem)]
      exact h
    · rw [if_neg hmem, if_neg fun hf => hmem (h.mem_iff.mpr hf)]
      exact h.insert trimmed_register
  | remove runId =>
    refine ⟨_, ?_, h.erase⟩
    show some (runs.erase runId, Reply.removed (decide (runId ∈ runs))) = some (_, .removed (decide (runId ∈ fulls)))
    rw [decide_eq_decide.mpr h.mem_iff]
  | view runId =>
    refine ⟨runs, ?_, h⟩
    show (runs.view runId).map _ = _
    rw [h.view]
    rfl
  | startStepAt runId stepId nowMs => exact ⟨_, rfl, h.modify fun _ _ ht => ht.startStepAt stepId nowMs⟩
  | appendText runId more =>
    obtain ⟨runs', happend, hruns'⟩ := h.appendText runId more
    refine ⟨runs', ?_, hruns'⟩
    show (runs.appendText runId more).map _ = _
    rw [happend]
    rfl
  | toolStarted runId tool => exact ⟨_, rfl, h.modify fun _ _ ht => ht.toolStarted tool⟩
  | toolFinished runId stepId toolCallId status durationMs resultPreview truncated =>
    exact ⟨_, rfl, h.modify fun _ _ ht => ht.modifyCard _ _ _⟩
  | toolSources runId stepId callId sources => exact ⟨_, rfl, h.modify fun _ _ ht => ht.modifyCard _ _ _⟩
  | noteServed runId served => exact ⟨_, rfl, h.modify_left fun _ _ ht => ht.noteServed served⟩
  | recordStepUsageAt runId stepId usage nowMs =>
    exact ⟨_, rfl, h.modify_left fun _ _ ht => ht.recordStepUsageAt stepId usage nowMs⟩

theorem serveAll_refines (h : Refines runs fulls) (calls : List Call) :
    ∃ runs', runs.serveAll calls = some (runs', (fulls.serveAll calls).2) ∧ Refines runs' (fulls.serveAll calls).1 := by
  induction calls generalizing runs fulls with
  | nil => exact ⟨runs, rfl, h⟩
  | cons call calls ih =>
    obtain ⟨runs₁, hcall, h₁⟩ := serve_refines h call
    obtain ⟨runs₂, hcalls, h₂⟩ := ih h₁
    refine ⟨runs₂, ?_, h₂⟩
    unfold LiveRuns.serveAll
    rw [hcall]
    simp only [Option.bind_eq_bind, Option.bind_some, hcalls]
    rfl

/-! ## The text of the step -/

theorem getElem?_modify_text (id runId : String) (f : FullRun → FullRun) (g : Text → Text) (hfg : ∀ full, (f full).text = g full.text) :
    (fulls.modify id f)[runId]?.map FullRun.text =
      if id = runId then (fulls[runId]?.map FullRun.text).map g else fulls[runId]?.map FullRun.text := by
  rw [Table.getElem?_modify_eq]
  by_cases hid : id = runId
  · rw [if_pos hid, if_pos hid, hid, Option.map_map, Option.map_map]
    congr 1
    funext full
    exact hfg full
  · rw [if_neg hid, if_neg hid]

theorem getElem?_modify_keep (id runId : String) (f : FullRun → FullRun) (hf : ∀ full, (f full).text = full.text) :
    (fulls.modify id f)[runId]?.map FullRun.text = fulls[runId]?.map FullRun.text := by
  rw [getElem?_modify_text id runId f (fun text => text) hf, Option.map_id']
  exact ite_self _

theorem getElem?_serve (runId : String) (fulls : FullRuns) (call : Call) :
    ((fulls.serve call).1)[runId]?.map FullRun.text = textStep runId (fulls[runId]?.map FullRun.text) call := by
  cases call with
  | register id =>
    show (if id ∈ fulls then fulls else fulls.insert id {})[runId]?.map FullRun.text = if id = runId then _ else _
    by_cases hid : id = runId
    · subst hid
      rw [if_pos rfl]
      by_cases hmem : id ∈ fulls
      · rw [if_pos hmem]
        obtain ⟨full, hfull⟩ := Option.isSome_iff_exists.mp (Table.mem_iff_getElem?_isSome.mp hmem)
        rw [hfull]
        rfl
      · rw [if_neg hmem, Table.getElem?_insert_eq, if_pos rfl, Table.not_mem_iff_getElem?_eq_none.mp hmem]
        rfl
    · rw [if_neg hid]
      by_cases hmem : id ∈ fulls
      · rw [if_pos hmem]
      · rw [if_neg hmem, Table.getElem?_insert_eq, if_neg hid]
  | remove id =>
    show (fulls.erase id)[runId]?.map FullRun.text = if id = runId then _ else _
    rw [Table.getElem?_erase_eq]
    by_cases hid : id = runId
    · rw [if_pos hid, if_pos hid]
      rfl
    · rw [if_neg hid, if_neg hid]
  | view id => rfl
  | startStepAt id stepId nowMs =>
    show (fulls.modify id _)[runId]?.map FullRun.text = if id = runId then _ else _
    exact getElem?_modify_text id runId _ (fun _ => []) fun _ => rfl
  | appendText id more =>
    show (fulls.modify id _)[runId]?.map FullRun.text = if id = runId then _ else _
    exact getElem?_modify_text id runId _ (· ++ more) fun _ => rfl
  | toolStarted id tool => exact getElem?_modify_keep id runId _ fun _ => rfl
  | toolFinished id stepId toolCallId status durationMs resultPreview truncated =>
    exact getElem?_modify_keep id runId _ fun _ => rfl
  | toolSources id stepId callId sources => exact getElem?_modify_keep id runId _ fun _ => rfl
  | noteServed id served => rfl
  | recordStepUsageAt id stepId usage nowMs => rfl

theorem getElem?_serveAll (runId : String) (fulls : FullRuns) (calls : List Call) :
    ((fulls.serveAll calls).1)[runId]?.map FullRun.text = calls.foldl (textStep runId) (fulls[runId]?.map FullRun.text) := by
  induction calls generalizing fulls with
  | nil => rfl
  | cons call calls ih =>
    rw [List.foldl_cons, ← getElem?_serve]
    exact ih _

/-! ## Every list of calls -/

/-- **The trimmed registry is exact.**  No list of calls panics or underflows, and every reply is that of the registry that keeps
everything.  At every moment, for a run with the text `full` appended in its current step, `view` shows the longest end of `full`
within the byte cap, at the offset that `full` gives it, and `append_text` returns the units of `full`. -/
theorem live_text_exact (calls : List Call) :
    ∃ runs, LiveRuns.serveAll ∅ calls = some (runs, (FullRuns.serveAll ∅ calls).2) ∧
      ∀ runId : String, (runs[runId]?.isSome = (stepText runId calls).isSome) ∧
        ∀ full, stepText runId calls = some full →
          (∃ view, runs.view runId = some (some view) ∧ view.text <:+ full ∧ byteLen view.text ≤ maxSnapshotTextBytes ∧
            (∀ s, s <:+ full → byteLen s ≤ maxSnapshotTextBytes → s <:+ view.text) ∧
            view.textOffset + utf16Len view.text = utf16Len full) ∧
          ∀ text, ∃ runs', runs.appendText runId text = some (runs', some (utf16Len full)) := by
  obtain ⟨runs, hserve, hrefines⟩ := serveAll_refines refines_empty calls
  refine ⟨runs, hserve, fun runId => ?_⟩
  have htext : ((FullRuns.serveAll ∅ calls).1)[runId]?.map FullRun.text = stepText runId calls := by
    have hempty : (∅ : FullRuns)[runId]? = none := by simp
    rw [getElem?_serveAll, hempty]
    rfl
  constructor
  · rw [← htext, Option.isSome_map, Bool.eq_iff_iff, ← Table.mem_iff_getElem?_isSome, ← Table.mem_iff_getElem?_isSome]
    exact hrefines.mem_iff
  intro full hfull
  rw [hfull] at htext
  obtain ⟨f, hf, rfl⟩ := Option.map_eq_some_iff.mp htext
  refine ⟨⟨f.snapshot, ?_, newestText_suffix _, weight_newest_le _ _, fun s => suffix_newest, ?_⟩, fun text => ?_⟩
  · rw [hrefines.view, hf]
    rfl
  · show utf16Len f.text - utf16Len (newestText f.text) + utf16Len (newestText f.text) = utf16Len f.text
    have hle : utf16Len (newestText f.text) ≤ utf16Len f.text := weight_le_of_suffix (newestText_suffix f.text)
    omega
  · obtain ⟨runs', happend, -⟩ := hrefines.appendText runId text
    rw [hf] at happend
    exact ⟨runs', happend⟩

namespace Sample

/-- A step restarted after one append; the second character has two UTF-16 units. -/
def restarted : List Call :=
  [.register "run_1", .startStepAt "run_1" "run_1:1" 1, .appendText "run_1" ['a'], .startStepAt "run_1" "run_1:2" 2,
    .appendText "run_1" ['h', Char.ofNat 0x1F600]]

theorem live_text_exact_restarted : ∃ runs replies, LiveRuns.serveAll ∅ restarted = some (runs, replies) ∧
    ∃ runs', runs.appendText "run_1" ['!'] = some (runs', some 3) := by
  obtain ⟨runs, hserve, hruns⟩ := live_text_exact restarted
  have htext : stepText "run_1" restarted = some ['h', Char.ofNat 0x1F600] := by decide +kernel
  exact ⟨runs, _, hserve, ((hruns "run_1").2 _ htext).2 ['!']⟩

end Sample

end AnimaCore.Live
