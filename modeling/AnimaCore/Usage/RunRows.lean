import AnimaCore.Live.Snapshots
import AnimaCore.Usage

/-!
# AnimaCore.Usage.RunRows — what the usage rows of a run account for

* `TokenField` and `count`: the five counters at once; `sumUsage` adds field by field.
* `modelCalls runId calls`: the model calls that the registry heard of for a run, with no cap, each with the fallback model that
  answered it.  `recorded_serveAll`: the registry keeps the first `MAX_RUN_STEPS` of them.
-/

namespace AnimaCore.Usage

open Lib Live RunDelta

/-! ## The five counters -/

/-- The counters of `TokenUsage`. -/
inductive TokenField
  | prompt
  | completion
  | total
  | cachedPrompt
  | reasoning
  deriving DecidableEq, Repr

def count (f : TokenField) (usage : TokenUsage) : ℕ :=
  match f with
  | .prompt => usage.promptTokens
  | .completion => usage.completionTokens
  | .total => usage.totalTokens
  | .cachedPrompt => usage.cachedPromptTokens
  | .reasoning => usage.reasoningTokens

def sumUsage (usages : List TokenUsage) : TokenUsage where
  promptTokens := (usages.map (count .prompt)).sum
  completionTokens := (usages.map (count .completion)).sum
  totalTokens := (usages.map (count .total)).sum
  cachedPromptTokens := (usages.map (count .cachedPrompt)).sum
  reasoningTokens := (usages.map (count .reasoning)).sum

variable {f : TokenField} {u v : TokenUsage} {us vs : List TokenUsage}

theorem ext_count (h : ∀ f, count f u = count f v) : u = v := by
  cases u
  cases v
  have h1 := h .prompt
  have h2 := h .completion
  have h3 := h .total
  have h4 := h .cachedPrompt
  have h5 := h .reasoning
  simp only [count] at h1 h2 h3 h4 h5
  rw [h1, h2, h3, h4, h5]

theorem count_sumUsage : count f (sumUsage us) = (us.map (count f)).sum := by cases f <;> rfl

theorem count_addUsage : count f (addUsage u v) = min (count f u + count f v) (2 ^ 64 - 1) := by cases f <;> rfl

theorem count_saturatingSub : count f (saturatingSub u v) = count f u - count f v := by cases f <;> rfl

theorem count_default : count f {} = 0 := by cases f <;> rfl

theorem isZero_iff : isZero u = true ↔ ∀ f, count f u = 0 := by
  unfold isZero
  simp only [Bool.and_eq_true, beq_iff_eq]
  constructor
  · rintro ⟨⟨⟨⟨h1, h2⟩, h3⟩, h4⟩, h5⟩ f
    cases f <;> assumption
  · intro h
    exact ⟨⟨⟨⟨h .prompt, h .completion⟩, h .total⟩, h .cachedPrompt⟩, h .reasoning⟩

theorem count_sumUsage_append : count f (sumUsage (us ++ vs)) = count f (sumUsage us) + count f (sumUsage vs) := by
  rw [count_sumUsage, count_sumUsage, count_sumUsage, List.map_append, List.sum_append]

theorem count_sumUsage_filter (us : List TokenUsage) :
    count f (sumUsage (us.filter fun u => !isZero u)) = count f (sumUsage us) := by
  induction us with
  | nil => rfl
  | cons u us ih =>
    rw [count_sumUsage] at ih ⊢
    rw [count_sumUsage] at ih ⊢
    cases hz : isZero u
    · rw [List.filter_cons_of_pos (by rw [hz]; rfl), List.map_cons, List.sum_cons, ih, List.map_cons, List.sum_cons]
    · rw [List.filter_cons_of_neg (by rw [hz]; simp), ih, List.map_cons, List.sum_cons, isZero_iff.mp hz f, Nat.zero_add]

theorem sumUsage_eq_zero_iff : (∀ f, count f (sumUsage us) = 0) ↔ ∀ u ∈ us, isZero u = true := by
  constructor
  · intro h u hu
    apply isZero_iff.mpr
    intro f
    have hf := h f
    rw [count_sumUsage] at hf
    exact List.sum_eq_zero_iff.mp hf _ (List.mem_map_of_mem hu)
  · intro h f
    rw [count_sumUsage]
    apply List.sum_eq_zero_iff.mpr
    rintro n hn
    obtain ⟨u, hu, rfl⟩ := List.mem_map.mp hn
    exact isZero_iff.mp (h u hu) f

/-! ## The model calls of a run -/

/-- One model call: its usage, and the provider and model that answered it instead of the run's own. -/
structure ModelCall where
  stepId : String
  usage : TokenUsage
  served : Option (String × String)
  deriving DecidableEq

/-- The calls heard of, and the note on the step now finishing. -/
abbrev Heard := List ModelCall × Option ServedStep

/-- What is heard of the run `runId` by one more call on the registry; `none` while it is not registered. -/
def hear (runId : String) (heard : Option Heard) : Call → Option Heard
  | .register id => if id = runId then some (heard.getD ([], none)) else heard
  | .remove id => if id = runId then none else heard
  | .noteServed id served => if id = runId then heard.map fun h => (h.1, some served) else heard
  | .recordStepUsageAt id stepId usage _ =>
    if id = runId then
      heard.map fun h =>
        let served := h.2.filter fun served => served.stepId == stepId
        (h.1 ++ [⟨stepId, usage, served.map fun served => (served.provider, served.model)⟩], none)
    else heard
  | _ => heard

def modelCalls (runId : String) (calls : List Call) : List ModelCall :=
  ((calls.foldl (hear runId) none).map Prod.fst).getD []

def stepCall (step : RunStepUsage) : ModelCall := ⟨step.stepId, step.usage, servedModel step⟩

/-- The run has the first `MAX_RUN_STEPS` calls, and before that many also the note. -/
def Recorded (run : LiveRunState) (h : Heard) : Prop :=
  run.steps.map stepCall = h.1.take maxRunSteps ∧ (h.1.length < maxRunSteps → run.served = h.2)

section

variable {run run' : LiveRunState} {h : Heard} {runs runs' : LiveRuns} {reply : Live.Reply} {heard : Option Heard} {runId : String}

theorem Recorded.frame (hr : Recorded run h) (hsteps : run'.steps = run.steps) (hserved : run'.served = run.served) :
    Recorded run' h := by
  unfold Recorded
  rw [hsteps, hserved]
  exact hr

theorem Recorded.noteServed (hr : Recorded run h) (served : ServedStep) :
    Recorded (run.noteServed served) (h.1, some served) := ⟨hr.1, fun _ => rfl⟩

theorem Recorded.recordStepUsageAt (hr : Recorded run h) (stepId : String) (usage : TokenUsage) (nowMs : ℕ) :
    Recorded (run.recordStepUsageAt stepId usage nowMs)
      (h.1 ++ [⟨stepId, usage, (h.2.filter fun served => served.stepId == stepId).map fun served =>
        (served.provider, served.model)⟩], none) := by
  obtain ⟨hsteps, hserved⟩ := hr
  have hlen : run.steps.length = min maxRunSteps h.1.length := by
    rw [← List.length_map (f := stepCall), hsteps, List.length_take]
  unfold LiveRunState.recordStepUsageAt
  by_cases hroom : run.steps.length < maxRunSteps
  · have hheard : h.1.length < maxRunSteps := by omega
    rw [if_pos hroom]
    refine ⟨?_, fun _ => rfl⟩
    rw [List.take_of_length_le (by rw [List.length_append]; show h.1.length + 1 ≤ maxRunSteps; omega)]
    rw [List.take_of_length_le (by omega)] at hsteps
    show (run.steps ++ [_]).map stepCall = h.1 ++ [_]
    rw [List.map_append, hsteps, hserved hheard]
    congr 2
    cases h.2.filter fun served => served.stepId == stepId <;> rfl
  · rw [if_neg hroom]
    refine ⟨?_, fun hlt => ?_⟩
    · rw [hsteps, List.take_append_of_le_length (by omega)]
    · have : (h.1 ++ [(⟨stepId, usage, _⟩ : ModelCall)]).length < maxRunSteps := hlt
      rw [List.length_append] at this
      omega

theorem appendText_frame {text : Text} {offset : ℕ} (happend : run.appendText text = some (run', offset)) :
    run'.steps = run.steps ∧ run'.served = run.served := by
  unfold LiveRunState.appendText at happend
  by_cases hlen : 2 * maxSnapshotTextBytes < byteLen (run.view.text ++ text)
  · simp only [if_pos hlen] at happend
    obtain ⟨trimmed, htrim, heq⟩ := Option.bind_eq_some_iff.mp happend
    obtain ⟨rfl, -⟩ := Prod.mk.inj (Option.some.inj heq)
    unfold LiveRunState.trim at htrim
    obtain ⟨⟨cut, kept⟩, -, htrim⟩ := Option.bind_eq_some_iff.mp htrim
    obtain ⟨units, -, htrim⟩ := Option.bind_eq_some_iff.mp htrim
    obtain rfl := Option.some.inj htrim
    exact ⟨rfl, rfl⟩
  · simp only [if_neg hlen] at happend
    obtain ⟨rfl, -⟩ := Prod.mk.inj (Option.some.inj happend)
    exact ⟨rfl, rfl⟩

theorem rel_modify (hr : Option.Rel Recorded runs[runId]? heard) {id : String} {f : LiveRunState → LiveRunState}
    {g : Heard → Heard} (hfg : ∀ run h, Recorded run h → Recorded (f run) (g h)) :
    Option.Rel Recorded (runs.modify id f)[runId]? (if id = runId then heard.map g else heard) := by
  rw [Table.getElem?_modify_eq]
  by_cases hid : id = runId
  · rw [if_pos hid, if_pos hid, hid]
    cases hrun : runs[runId]? <;> cases heard <;> rw [hrun] at hr <;> cases hr
    · exact .none
    · exact .some (hfg _ _ ‹_›)
  · rw [if_neg hid, if_neg hid]
    exact hr

theorem rel_modify_frame (hr : Option.Rel Recorded runs[runId]? heard) {id : String} {f : LiveRunState → LiveRunState}
    (hf : ∀ run, (f run).steps = run.steps ∧ (f run).served = run.served) :
    Option.Rel Recorded (runs.modify id f)[runId]? heard := by
  have hrel : Option.Rel Recorded (runs.modify id f)[runId]? (if id = runId then heard.map (fun h => h) else heard) :=
    rel_modify hr fun run h hrun => hrun.frame (hf run).1 (hf run).2
  rwa [Option.map_id', ite_self] at hrel

theorem recorded_serve (hr : Option.Rel Recorded runs[runId]? heard) {call : Call} (hs : runs.serve call = some (runs', reply)) :
    Option.Rel Recorded runs'[runId]? (hear runId heard call) := by
  cases call with
  | register id =>
    obtain ⟨rfl, -⟩ := Prod.mk.inj (Option.some.inj hs)
    show Option.Rel Recorded (runs.register id)[runId]? (if id = runId then some (heard.getD ([], none)) else heard)
    unfold LiveRuns.register
    by_cases hid : id = runId
    · rw [if_pos hid]
      by_cases hmem : id ∈ runs
      · rw [if_pos hmem]
        obtain ⟨run, hrun⟩ := Option.isSome_iff_exists.mp (Table.mem_iff_getElem?_isSome.mp hmem)
        rw [hid] at hrun
        rw [hrun] at hr ⊢
        cases hr
        exact .some ‹_›
      · rw [if_neg hmem, Table.getElem?_insert_eq, if_pos hid]
        rw [hid] at hmem
        rw [Table.not_mem_iff_getElem?_eq_none.mp hmem] at hr
        cases hr
        exact .some ⟨rfl, fun _ => rfl⟩
    · rw [if_neg hid]
      by_cases hmem : id ∈ runs
      · rwa [if_pos hmem]
      · rwa [if_neg hmem, Table.getElem?_insert_eq, if_neg hid]
  | remove id =>
    obtain ⟨rfl, -⟩ := Prod.mk.inj (Option.some.inj hs)
    show Option.Rel Recorded (runs.erase id)[runId]? (if id = runId then none else heard)
    rw [Table.getElem?_erase_eq]
    by_cases hid : id = runId
    · rw [if_pos hid, if_pos hid]
      exact .none
    · rwa [if_neg hid, if_neg hid]
  | view id =>
    obtain ⟨view, -, heq⟩ := Option.map_eq_some_iff.mp hs
    obtain ⟨rfl, -⟩ := Prod.mk.inj heq
    exact hr
  | startStepAt id stepId nowMs =>
    obtain ⟨rfl, -⟩ := Prod.mk.inj (Option.some.inj hs)
    exact rel_modify_frame hr fun _ => ⟨rfl, rfl⟩
  | appendText id text =>
    obtain ⟨⟨runs₁, offset⟩, happend, heq⟩ := Option.map_eq_some_iff.mp hs
    obtain ⟨rfl, -⟩ := Prod.mk.inj heq
    unfold LiveRuns.appendText at happend
    cases hrun : runs[id]? with
    | none =>
      rw [hrun] at happend
      obtain ⟨rfl, -⟩ := Prod.mk.inj (Option.some.inj happend)
      exact hr
    | some run =>
      rw [hrun] at happend
      obtain ⟨⟨run', units⟩, hrun', heq⟩ := Option.map_eq_some_iff.mp happend
      obtain ⟨rfl, -⟩ := Prod.mk.inj heq
      show Option.Rel Recorded (runs.insert id run')[runId]? heard
      rw [Table.getElem?_insert_eq]
      by_cases hid : id = runId
      · rw [if_pos hid]
        rw [← hid, hrun] at hr
        obtain ⟨hsteps, hserved⟩ := appendText_frame hrun'
        cases hr
        rename_i h hr
        exact .some (hr.frame hsteps hserved)
      · rwa [if_neg hid]
  | toolStarted id tool =>
    obtain ⟨rfl, -⟩ := Prod.mk.inj (Option.some.inj hs)
    exact rel_modify_frame hr fun _ => ⟨rfl, rfl⟩
  | toolFinished id stepId toolCallId status durationMs resultPreview truncated =>
    obtain ⟨rfl, -⟩ := Prod.mk.inj (Option.some.inj hs)
    exact rel_modify_frame hr fun _ => ⟨rfl, rfl⟩
  | toolSources id stepId callId sources =>
    obtain ⟨rfl, -⟩ := Prod.mk.inj (Option.some.inj hs)
    exact rel_modify_frame hr fun _ => ⟨rfl, rfl⟩
  | noteServed id served =>
    obtain ⟨rfl, -⟩ := Prod.mk.inj (Option.some.inj hs)
    exact rel_modify hr fun _ _ hrun => hrun.noteServed served
  | recordStepUsageAt id stepId usage nowMs =>
    obtain ⟨rfl, -⟩ := Prod.mk.inj (Option.some.inj hs)
    exact rel_modify hr fun _ _ hrun => hrun.recordStepUsageAt stepId usage nowMs

theorem recorded_serveAll (hr : Option.Rel Recorded runs[runId]? heard) {calls : List Call} {replies : List Live.Reply}
    (hs : runs.serveAll calls = some (runs', replies)) :
    Option.Rel Recorded runs'[runId]? (calls.foldl (hear runId) heard) := by
  induction calls generalizing runs heard replies with
  | nil =>
    obtain ⟨rfl, -⟩ := Prod.mk.inj (Option.some.inj hs)
    exact hr
  | cons call calls ih =>
    unfold LiveRuns.serveAll at hs
    obtain ⟨⟨runs₁, reply⟩, hcall, hs⟩ := Option.bind_eq_some_iff.mp hs
    obtain ⟨⟨runs₂, rest⟩, hcalls, heq⟩ := Option.bind_eq_some_iff.mp hs
    obtain ⟨rfl, -⟩ := Prod.mk.inj (Option.some.inj heq)
    exact ih (recorded_serve hr hcall) hcalls

theorem steps_serveAll {calls : List Call} {replies : List Live.Reply} (hs : LiveRuns.serveAll ∅ calls = some (runs, replies))
    (runId : String) : (runs.steps runId).map stepCall = (modelCalls runId calls).take maxRunSteps := by
  have hempty : Option.Rel Recorded (∅ : LiveRuns)[runId]? none := by
    have hnone : (∅ : LiveRuns)[runId]? = none := by simp
    rw [hnone]
    exact .none
  have hrel := recorded_serveAll hempty hs
  unfold LiveRuns.steps modelCalls
  cases hrun : runs[runId]? <;> cases hheard : calls.foldl (hear runId) none <;> rw [hrun, hheard] at hrel <;> cases hrel
  · rfl
  · rename_i run h hrec
    exact hrec.1

end

/-! ## The rows -/

section

variable {priceCall : String → String → TokenUsage → Option ℕ × PricingSource} {run : RunRecord}

theorem foldl_addStep (priceCall : String → String → TokenUsage → Option ℕ × PricingSource) (run : RunRecord)
    (steps : List RunStepUsage) (acc : List UsageRecord × TokenUsage) :
    (steps.foldl (addStep priceCall run) acc).1 =
        acc.1 ++ (steps.filter fun step => !isZero step.usage).map (stepRecord priceCall run) ∧
      ((∀ f, count f acc.2 < 2 ^ 64) → ∀ f, count f (steps.foldl (addStep priceCall run) acc).2 =
        min (count f acc.2 + count f (sumUsage (steps.map RunStepUsage.usage))) (2 ^ 64 - 1)) := by
  induction steps generalizing acc with
  | nil =>
    refine ⟨(List.append_nil _).symm, fun hlt f => ?_⟩
    have := hlt f
    rw [count_sumUsage]
    show count f acc.2 = min (count f acc.2 + 0) (2 ^ 64 - 1)
    omega
  | cons step steps ih =>
    have hsnd : (addStep priceCall run acc step).2 = addUsage acc.2 step.usage := by
      unfold addStep
      by_cases hz : isZero step.usage
      · rw [if_pos hz]
      · rw [if_neg hz]
    obtain ⟨hrows, hsum⟩ := ih (addStep priceCall run acc step)
    rw [List.foldl_cons]
    constructor
    · rw [hrows]
      unfold addStep
      by_cases hz : isZero step.usage
      · rw [if_pos hz, List.filter_cons_of_neg (by rw [hz]; simp)]
      · rw [if_neg hz, List.filter_cons_of_pos (by rw [Bool.eq_false_iff.mpr hz]; rfl), List.map_cons, List.append_assoc]
        rfl
    · intro hlt f
      rw [hsum (fun f => by rw [hsnd, count_addUsage]; omega) f, hsnd, count_addUsage, count_sumUsage, count_sumUsage,
        List.map_cons, List.map_cons, List.sum_cons]
      omega

/-- The usage that the steps do not account for. -/
def RunRecord.rest (run : RunRecord) (kept : List TokenUsage) : TokenUsage := saturatingSub run.usage (sumUsage kept)

theorem rows_eq (hfit : ∀ f, count f (sumUsage (run.steps.map RunStepUsage.usage)) < 2 ^ 64) :
    usageRecordsForRun priceCall run =
      (run.steps.filter fun step => !isZero step.usage).map (stepRecord priceCall run) ++
        if 0 < (run.rest (run.steps.map RunStepUsage.usage)).totalTokens then
          [usageRecord priceCall (run.call run.restId 0 (run.finishedAtMs.getD run.fallbackMs) none)
            (run.rest (run.steps.map RunStepUsage.usage))]
        else [] := by
  obtain ⟨hrows, hsum⟩ := foldl_addStep priceCall run run.steps ([], {})
  have haccounted : (run.steps.foldl (addStep priceCall run) ([], {})).2 = sumUsage (run.steps.map RunStepUsage.usage) := by
    apply ext_count
    intro f
    have hf := hfit f
    rw [hsum (fun f => by rw [count_default]; omega) f, count_default]
    omega
  show (if 0 < (saturatingSub run.usage (run.steps.foldl (addStep priceCall run) ([], {})).2).totalTokens then
    (run.steps.foldl (addStep priceCall run) ([], {})).1 ++ [_] else (run.steps.foldl (addStep priceCall run) ([], {})).1) = _
  rw [haccounted, hrows]
  unfold RunRecord.rest
  by_cases hrest : 0 < (saturatingSub run.usage (sumUsage (run.steps.map RunStepUsage.usage))).totalTokens
  · rw [if_pos hrest, if_pos hrest]
    rfl
  · rw [if_neg hrest, if_neg hrest, List.append_nil]
    rfl

theorem count_stepRows (f : TokenField) (steps : List RunStepUsage) :
    count f (sumUsage (((steps.filter fun step => !isZero step.usage).map (stepRecord priceCall run)).map UsageRecord.tokens)) =
      count f (sumUsage (steps.map RunStepUsage.usage)) := by
  rw [← count_sumUsage_filter (steps.map RunStepUsage.usage), List.filter_map, List.map_map]
  rfl

/-- The provider and the model of the run itself. -/
def RunRecord.own (run : RunRecord) : String × String := (run.provider.getD "unknown", run.model)

/-- The row names the model and has the price of its tokens there. -/
def PricedAt (priceCall : String → String → TokenUsage → Option ℕ × PricingSource) (row : UsageRecord)
    (model : String × String) : Prop :=
  row.provider = model.1 ∧ row.model = model.2 ∧ (row.costMicros, row.pricingSource) = priceCall model.1 model.2 row.tokens

theorem pricedAt_stepRecord (step : RunStepUsage) :
    PricedAt priceCall (stepRecord priceCall run step) ((stepCall step).served.getD run.own) := by
  unfold stepRecord stepCall
  cases servedModel step <;> exact ⟨rfl, rfl, rfl⟩

variable {all : List ModelCall}

theorem rest_eq (hkept : run.steps.map stepCall = all.take maxRunSteps) (husage : run.usage = sumUsage (all.map ModelCall.usage)) :
    run.rest (run.steps.map RunStepUsage.usage) = sumUsage ((all.drop maxRunSteps).map ModelCall.usage) := by
  have husages : run.steps.map RunStepUsage.usage = (all.take maxRunSteps).map ModelCall.usage := by
    rw [← hkept, List.map_map]
    rfl
  apply ext_count
  intro f
  unfold RunRecord.rest
  rw [count_saturatingSub, husages, husage]
  conv_lhs => rw [← List.take_append_drop maxRunSteps all, List.map_append, count_sumUsage_append]
  rw [List.take_append_drop]
  omega

theorem count_rows (hkept : run.steps.map stepCall = all.take maxRunSteps) (husage : run.usage = sumUsage (all.map ModelCall.usage))
    (hfit : ∀ f, count f run.usage < 2 ^ 64) (f : TokenField) :
    count f (sumUsage ((usageRecordsForRun priceCall run).map UsageRecord.tokens)) =
      count f (sumUsage ((all.take maxRunSteps).map ModelCall.usage)) +
        if 0 < (sumUsage ((all.drop maxRunSteps).map ModelCall.usage)).totalTokens then
          count f (sumUsage ((all.drop maxRunSteps).map ModelCall.usage))
        else 0 := by
  have husages : run.steps.map RunStepUsage.usage = (all.take maxRunSteps).map ModelCall.usage := by
    rw [← hkept, List.map_map]
    rfl
  rw [rows_eq, rest_eq hkept husage, List.map_append, count_sumUsage_append, count_stepRows, husages]
  · congr 1
    by_cases hpos : 0 < (sumUsage ((all.drop maxRunSteps).map ModelCall.usage)).totalTokens
    · rw [if_pos hpos, if_pos hpos, count_sumUsage]
      exact Nat.add_zero _
    · rw [if_neg hpos, if_neg hpos, count_sumUsage]
      rfl
  · intro f
    have hle := hfit f
    rw [husage, ← List.take_append_drop maxRunSteps all, List.map_append, count_sumUsage_append] at hle
    rw [husages]
    omega

/-- **The rows account for the run** iff its calls beyond the kept ones have a total, or no usage at all.  In every case the row
identifiers are distinct if the step identifiers are, and each row is priced at the model that answered. -/
theorem usage_rows_iff (priceCall : String → String → TokenUsage → Option ℕ × PricingSource) {calls : List Call} {runs : LiveRuns}
    {replies : List Live.Reply} (hserve : LiveRuns.serveAll ∅ calls = some (runs, replies)) {run : RunRecord}
    (hsteps : run.steps = runs.steps run.id)
    (husage : run.usage = sumUsage ((modelCalls run.id calls).map ModelCall.usage)) (hfit : ∀ f, count f run.usage < 2 ^ 64) :
    let rows := usageRecordsForRun priceCall run
    let kept := (modelCalls run.id calls).take maxRunSteps
    let beyond := (modelCalls run.id calls).drop maxRunSteps
    (sumUsage (rows.map UsageRecord.tokens) = run.usage ↔
      0 < (sumUsage (beyond.map ModelCall.usage)).totalTokens ∨ ∀ call ∈ beyond, isZero call.usage = true) ∧
    ((kept.map ModelCall.stepId).Nodup → run.restId ∉ kept.map ModelCall.stepId → (rows.map UsageRecord.id).Nodup) ∧
    ∀ row ∈ rows,
      (∃ call ∈ kept, row.id = call.stepId ∧ row.tokens = call.usage ∧ PricedAt priceCall row (call.served.getD run.own)) ∨
      (row.id = run.restId ∧ row.tokens = sumUsage (beyond.map ModelCall.usage) ∧ PricedAt priceCall row run.own) := by
  intro rows kept beyond
  have hkept : run.steps.map stepCall = kept := by rw [hsteps, steps_serveAll hserve]
  have hids : run.steps.map RunStepUsage.stepId = kept.map ModelCall.stepId := by rw [← hkept, List.map_map]; rfl
  have htotal (f : TokenField) :
      count f run.usage = count f (sumUsage (kept.map ModelCall.usage)) + count f (sumUsage (beyond.map ModelCall.usage)) := by
    rw [husage, ← count_sumUsage_append, ← List.map_append, List.take_append_drop]
  have hrows : rows = _ := rows_eq fun f => by
    have := htotal f
    have := hfit f
    rw [show run.steps.map RunStepUsage.usage = kept.map ModelCall.usage by rw [← hkept, List.map_map]; rfl]
    omega
  rw [rest_eq hkept husage] at hrows
  have hstep (row : UsageRecord) (hrow : row ∈ (run.steps.filter fun step => !isZero step.usage).map (stepRecord priceCall run)) :
      ∃ call ∈ kept, row.id = call.stepId ∧ row.tokens = call.usage ∧ PricedAt priceCall row (call.served.getD run.own) := by
    obtain ⟨step, hstep, rfl⟩ := List.mem_map.mp hrow
    refine ⟨stepCall step, ?_, rfl, rfl, pricedAt_stepRecord step⟩
    rw [← hkept]
    exact List.mem_map_of_mem (List.mem_filter.mp hstep).1
  have hnodup (hn : (kept.map ModelCall.stepId).Nodup) :
      (((run.steps.filter fun step => !isZero step.usage).map (stepRecord priceCall run)).map UsageRecord.id).Nodup := by
    rw [List.map_map]
    apply List.Nodup.sublist _ (hids ▸ hn)
    exact List.filter_sublist.map RunStepUsage.stepId
  refine ⟨⟨fun hsum => ?_, fun hcond => ?_⟩, ?_⟩
  · -- the rows miss what the calls beyond have, if they have no total
    by_cases hpos : 0 < (sumUsage (beyond.map ModelCall.usage)).totalTokens
    · exact .inl hpos
    · have hzero : ∀ u ∈ beyond.map ModelCall.usage, isZero u = true := by
        apply sumUsage_eq_zero_iff.mp
        intro f
        have hf := congrArg (count f) hsum
        rw [count_rows hkept husage hfit, if_neg hpos, htotal f] at hf
        show count f (sumUsage (beyond.map ModelCall.usage)) = 0
        change count f (sumUsage (kept.map ModelCall.usage)) + 0 = _ at hf
        omega
      exact .inr fun call hcall => hzero _ (List.mem_map_of_mem hcall)
  · apply ext_count
    intro f
    rw [count_rows hkept husage hfit, htotal f]
    congr 1
    by_cases hpos : 0 < (sumUsage (beyond.map ModelCall.usage)).totalTokens
    · rw [if_pos hpos]
    · rw [if_neg hpos]
      symm
      apply sumUsage_eq_zero_iff.mpr
      rintro u hu
      obtain ⟨call, hcall, rfl⟩ := List.mem_map.mp hu
      exact (hcond.resolve_left hpos) call hcall
  rw [hrows]
  by_cases hpos : 0 < (sumUsage (beyond.map ModelCall.usage)).totalTokens
  · rw [if_pos hpos]
    refine ⟨fun hn hfresh => ?_, fun row hrow => ?_⟩
    · rw [List.map_append]
      apply List.Nodup.append (hnodup hn) (List.nodup_singleton _)
      intro id hid hmem
      obtain ⟨row, hrow, rfl⟩ := List.mem_map.mp hid
      obtain ⟨call, hcall, hcid, -⟩ := hstep row hrow
      have hrestId : row.id = run.restId := List.mem_singleton.mp hmem
      exact hfresh (hrestId ▸ hcid ▸ List.mem_map_of_mem hcall)
    · rcases List.mem_append.mp hrow with hrow | hrow
      · exact .inl (hstep row hrow)
      · obtain rfl := List.mem_singleton.mp hrow
        exact .inr ⟨rfl, rfl, rfl, rfl, rfl⟩
  · rw [if_neg hpos, List.append_nil]
    exact ⟨fun hn _ => hnodup hn, fun row hrow => .inl (hstep row hrow)⟩

end

namespace Sample

def flatPrice (_ _ : String) (usage : TokenUsage) : Option ℕ × PricingSource := (some usage.totalTokens, .table)

/-- Two model calls of a run; a fallback answered the first. -/
def twoCalls : List Call :=
  [.register "run_1", .startStepAt "run_1" "run_1:1" 1, .noteServed "run_1" ⟨"run_1:1", "openai", "gpt", "was rate limited"⟩,
    .recordStepUsageAt "run_1" "run_1:1" { promptTokens := 10, completionTokens := 5, totalTokens := 15 } 4,
    .recordStepUsageAt "run_1" "run_1:2" { promptTokens := 1, totalTokens := 1 } 6]

/-- The record of a run with the steps kept and the usage of all its calls. -/
def endedRun (calls : List Call) (steps : List RunStepUsage) : RunRecord where
  id := "run_1"
  agentId := "agent"
  sessionId := "chat"
  source := .web
  createdAtMs := 0
  startedAtMs := some 1
  finishedAtMs := some 9
  steps
  usage := sumUsage ((modelCalls "run_1" calls).map ModelCall.usage)
  model := "claude"
  provider := some "anthropic"

theorem usage_rows_iff_two : ∃ runs replies, LiveRuns.serveAll ∅ twoCalls = some (runs, replies) ∧
    sumUsage ((usageRecordsForRun flatPrice (endedRun twoCalls (runs.steps "run_1"))).map UsageRecord.tokens) =
      { promptTokens := 11, completionTokens := 5, totalTokens := 16 } := by
  obtain ⟨runs, hserve, -⟩ := serveAll_refines refines_empty twoCalls
  have husage : sumUsage ((modelCalls "run_1" twoCalls).map ModelCall.usage) =
      { promptTokens := 11, completionTokens := 5, totalTokens := 16 } := by decide +kernel
  have hbeyond : ∀ call ∈ (modelCalls "run_1" twoCalls).drop maxRunSteps, isZero call.usage = true := by decide +kernel
  have hrows := (@usage_rows_iff flatPrice _ _ _ hserve (endedRun twoCalls (runs.steps "run_1")) rfl rfl fun f => by
    show count f (sumUsage ((modelCalls "run_1" twoCalls).map ModelCall.usage)) < 2 ^ 64
    rw [husage]
    cases f <;> decide).1.mpr (.inr hbeyond)
  exact ⟨runs, _, hserve, hrows.trans husage⟩

/-- Fifty-one calls with tokens but no total, as of a server that leaves the total out. -/
def noTotals : List Call :=
  .register "run_1" :: (List.range 51).map fun i =>
    .recordStepUsageAt "run_1" ("run_1:" ++ toString (i + 1)) { promptTokens := 10, completionTokens := 5 } 4

/-- The tokens of the fifty-first call are in no row. -/
theorem rows_lose_the_last_call : ∃ runs replies, LiveRuns.serveAll ∅ noTotals = some (runs, replies) ∧
    (endedRun noTotals (runs.steps "run_1")).usage = { promptTokens := 510, completionTokens := 255 } ∧
    sumUsage ((usageRecordsForRun flatPrice (endedRun noTotals (runs.steps "run_1"))).map UsageRecord.tokens) =
      { promptTokens := 500, completionTokens := 250 } := by
  obtain ⟨runs, hserve, -⟩ := serveAll_refines refines_empty noTotals
  have husage : sumUsage ((modelCalls "run_1" noTotals).map ModelCall.usage) =
      { promptTokens := 510, completionTokens := 255 } := by decide +kernel
  have hkept : sumUsage (((modelCalls "run_1" noTotals).take maxRunSteps).map ModelCall.usage) =
      { promptTokens := 500, completionTokens := 250 } := by decide +kernel
  have hbeyond : ¬0 < (sumUsage (((modelCalls "run_1" noTotals).drop maxRunSteps).map ModelCall.usage)).totalTokens := by
    decide +kernel
  have hfit (f : TokenField) : count f (sumUsage ((modelCalls "run_1" noTotals).map ModelCall.usage)) < 2 ^ 64 := by
    rw [husage]
    cases f <;> decide
  refine ⟨runs, _, hserve, husage, ext_count fun f => ?_⟩
  have hrows := @count_rows flatPrice (endedRun noTotals (runs.steps "run_1")) (modelCalls "run_1" noTotals)
    (steps_serveAll hserve "run_1") rfl hfit f
  rw [if_neg hbeyond, hkept, Nat.add_zero] at hrows
  exact hrows

end Sample

end AnimaCore.Usage
