import AnimaCore.FallbackModel.Attempts

/-!
# AnimaCore.FallbackModel.Unmixed — one reply, one model

* `Chained`: a call of a run with its chain.  `stream_spec`: a call leaves one and says where the next one starts.
* `Unmixed`: what a run keeps; its clause on the `Served` frames depends on the sinks (`announcedRight_iff`).
-/

namespace AnimaCore.FallbackModel

variable {ρ : Type}

namespace CallResult

/-- The frames that the consumer got in a call. -/
def frames (r : CallResult ρ) : List (ModelStreamFrame ρ) := r.attempts.flatMap fun a => delivered a.sent

def answered (r : CallResult ρ) : Option ℕ :=
  match r.outcome with
  | some (.ok ()) => some (r.start + r.attempts.length - 1)
  | _ => none

/-- The consumer of a call that gets a `Final` gets the `Served` frame of the choice that sent it, once and directly
before the first `Final`, if that choice is not the primary, and no `Served` frame if it is. -/
def AnnouncedRight (r : CallResult ρ) : Prop :=
  ∀ i a, r.attempts[i]? = some a → HasFinal (delivered a.sent) →
    if r.start + i = 0 then ∀ frame ∈ r.frames, frame.isServed = false
    else ∃ reason, Announces (.served (a.choice.provider.getD "") a.choice.model reason) r.frames

end CallResult

structure Unmixed (classify : String → ModelFailureKind) (config : AgentConfig) (results : List (CallResult ρ)) :
    Prop where
  start : ∀ before r after, results = before ++ r :: after →
    r.start = ((before.filterMap CallResult.answered).getLast?).getD 0
  tried : ∀ r ∈ results, r.attempts ≠ [] ∧
    r.attempts.map (·.choice) = ((choiceConfigs config).drop r.start).take r.attempts.length
  further : ∀ r ∈ results, ∀ i a, r.attempts[i]? = some a → i + 1 < r.attempts.length →
    (∀ frame ∈ a.emitted, frame.isOutput = false) ∧
      ∃ first error, r.attempts[0]? = some first ∧ first.result = .error error ∧ (classify error).fallsBack = true
  oneChoice : ∀ r ∈ results, ∀ (i j : ℕ) (a b : Attempt ρ), r.attempts[i]? = some a → r.attempts[j]? = some b →
    (∃ d ∈ a.sent, d.call.isOutput = true) → (∃ d ∈ b.sent, d.call.isOutput = true) → i = j
  announced : ∀ r ∈ results, r.AnnouncedRight
  monotone : (results.filterMap CallResult.answered).Pairwise (· ≤ ·)
  total : ∀ r ∈ results, r.outcome ≠ none

/-! ## One call -/

section

variable {classify : String → ModelFailureKind} {config : AgentConfig}

structure Chained (classify : String → ModelFailureKind) (config : AgentConfig) (r : CallResult ρ) : Prop where
  start_lt : r.start < (choiceConfigs config).length
  chain : Chain classify r.start ((choiceConfigs config).zipIdx.drop r.start) r.attempts r.answered
  sound : ∀ a ∈ r.attempts, a.Sound
  total : r.outcome ≠ none

theorem getElem?_choices (choices : List AgentConfig) (start i : ℕ) :
    (choices.zipIdx.drop start)[i]? = choices[start + i]?.map fun choice => (choice, start + i) := by
  rw [List.getElem?_drop, List.getElem?_zipIdx, Nat.zero_add]

theorem map_fst_choices (choices : List AgentConfig) (start : ℕ) :
    (choices.zipIdx.drop start).map Prod.fst = choices.drop start := by
  rw [List.map_drop, List.zipIdx_map_fst]

namespace Chained

variable {r : CallResult ρ} (h : Chained classify config r)

include h

theorem attempts_ne_nil : r.attempts ≠ [] := by
  refine h.chain.ne_nil fun hnil => ?_
  have hlen := congrArg List.length hnil
  rw [List.length_drop, List.length_zipIdx, List.length_nil] at hlen
  have hlt := h.start_lt
  omega

theorem tried : r.attempts.map (·.choice) = ((choiceConfigs config).drop r.start).take r.attempts.length := by
  rw [h.chain.tried, List.map_take, map_fst_choices]

theorem named {i : ℕ} {a : Attempt ρ} (ha : r.attempts[i]? = some a) :
    ∃ reason, a.served = servedFrame (r.start + i) a.choice reason := by
  obtain ⟨index, reason, hchoice, hserved⟩ := h.chain.named ha
  rw [getElem?_choices] at hchoice
  obtain ⟨choice, -, heq⟩ := Option.map_eq_some_iff.mp hchoice
  cases heq
  exact ⟨reason, hserved⟩

theorem first (hmore : 1 < r.attempts.length) :
    ∃ a error, r.attempts[0]? = some a ∧ a.result = .error error ∧ (classify error).fallsBack = true := by
  have hhead : ((choiceConfigs config).zipIdx.drop r.start)[0]? =
      some ((choiceConfigs config).get ⟨r.start, h.start_lt⟩, r.start) := by
    rw [getElem?_choices, Nat.add_zero, List.getElem?_eq_getElem h.start_lt]
    rfl
  exact h.chain.first hmore hhead

theorem last_of_output {i : ℕ} {a : Attempt ρ} (ha : r.attempts[i]? = some a)
    (houtput : ∃ d ∈ a.sent, d.call.isOutput = true) : i + 1 = r.attempts.length := by
  have hlt : i < r.attempts.length := (List.getElem?_eq_some_iff.mp ha).1
  by_contra hne
  have hquiet := h.chain.quiet ha (by omega)
  obtain ⟨d, hd, hout⟩ := houtput
  have hsilent := ((h.sound a (List.mem_of_getElem? ha)).silent hquiet d hd).1
  rw [hout] at hsilent
  cases hsilent

theorem frames_eq {i : ℕ} {a : Attempt ρ} (ha : r.attempts[i]? = some a) (hlast : i + 1 = r.attempts.length) :
    ∃ front, r.frames = front ++ delivered a.sent ∧
      ∀ frame ∈ front, frame.isServed = false ∧ frame.isFinal = false := by
  have hget : r.attempts.getLast? = some a := by
    rw [List.getLast?_eq_getElem?, ← hlast]
    exact ha
  have hsplit : r.attempts.dropLast ++ [a] = r.attempts := List.dropLast_append_getLast? a hget
  refine ⟨r.attempts.dropLast.flatMap fun b => delivered b.sent, ?_, ?_⟩
  · unfold CallResult.frames
    rw [← hsplit, List.flatMap_append, List.flatMap_singleton, hsplit]
  · intro frame hframe
    obtain ⟨b, hb, hmem⟩ := List.mem_flatMap.mp hframe
    obtain ⟨j, hj⟩ := List.mem_iff_getElem?.mp hb
    obtain ⟨hlt, -⟩ := List.getElem?_eq_some_iff.mp hj
    rw [List.length_dropLast] at hlt
    rw [List.getElem?_dropLast, if_pos hlt] at hj
    have hquiet := h.chain.quiet hj (by omega)
    obtain ⟨houtput, hserved⟩ :=
      (h.sound b (List.mem_of_getElem? hj)).silent hquiet _ (mem_delivered.mp hmem)
    refine ⟨hserved, Bool.eq_false_iff.mpr fun hfinal => ?_⟩
    have hout : frame.isOutput = false := houtput
    rw [isOutput_of_isFinal hfinal] at hout
    cases hout

theorem announcedRight_iff : r.AnnouncedRight ↔ ∀ a ∈ r.attempts, ¬Unannounced a.sent := by
  constructor
  · intro hright a hmem hun
    obtain ⟨i, ha⟩ := List.mem_iff_getElem?.mp hmem
    obtain ⟨reason, hserved⟩ := h.named ha
    have hannounced := (h.sound a hmem).announced
    have hfinal := hun.hasFinal
    obtain ⟨front, hframes, hfront⟩ := h.frames_eq ha (h.last_of_output ha (output_of_hasFinal hfinal))
    have hshape := hright i a ha hfinal
    by_cases hprimary : r.start + i = 0
    · -- the primary has no `Served` frame to send
      obtain ⟨pre, served, answer, rest, hsent, hisServed, -⟩ := hun
      rw [hserved, hprimary] at hannounced
      have hnone : served.isServed = false := by
        refine hannounced ⟨.emit served, answer⟩ ?_
        rw [hsent]
        exact List.mem_append_right _ List.mem_cons_self
      rw [hisServed] at hnone
      cases hnone
    · rw [if_neg hprimary] at hshape
      obtain ⟨reason', hann⟩ := hshape
      have hpos : 0 < r.start + i := Nat.pos_of_ne_zero hprimary
      unfold servedFrame at hserved
      rw [if_pos hpos] at hserved
      rw [hserved] at hannounced
      rw [hframes, announces_append rfl hfront] at hann
      rw [hannounced.eq_of_announces rfl hann] at hann
      exact (announces_iff rfl hannounced hfinal).mp hann hun
  · intro hnot i a ha hfinal
    obtain ⟨reason, hserved⟩ := h.named ha
    have hmem := List.mem_of_getElem? ha
    have hannounced := (h.sound a hmem).announced
    obtain ⟨front, hframes, hfront⟩ := h.frames_eq ha (h.last_of_output ha (output_of_hasFinal hfinal))
    by_cases hprimary : r.start + i = 0
    · rw [if_pos hprimary, hframes]
      rw [hserved, hprimary] at hannounced
      intro frame hframe
      rcases List.mem_append.mp hframe with hframe | hframe
      · exact (hfront frame hframe).1
      · exact hannounced _ (mem_delivered.mp hframe)
    · have hpos : 0 < r.start + i := Nat.pos_of_ne_zero hprimary
      unfold servedFrame at hserved
      rw [if_pos hpos] at hserved
      rw [hserved] at hannounced
      rw [if_neg hprimary, hframes]
      exact ⟨_, (announces_append rfl hfront).mpr ((announces_iff rfl hannounced hfinal).mpr (hnot a hmem))⟩

end Chained

/-! ## A run -/

def stickyIndex (sticky : Option Sticky) : ℕ := sticky.elim 0 (·.index)

/-- What comes to be sticky is a choice of the config. -/
def Fits (config : AgentConfig) (sticky : Option Sticky) : Prop := stickyIndex sticky < (choiceConfigs config).length

theorem fits_none : Fits config none := Nat.succ_pos _

theorem startOf_fst {sticky : Option Sticky} (h : Fits config sticky) :
    (startOf (choiceConfigs config) sticky).1 = stickyIndex sticky := by
  unfold startOf
  rcases sticky with _ | sticky
  · rfl
  · have hlt : sticky.index < (choiceConfigs config).length := h
    dsimp only
    rw [if_pos hlt]
    rfl

theorem stream_of_ok {sticky next : Option Sticky} {call : Call ρ} {attempts : List (Attempt ρ)}
    (h : downTheChain classify (choiceConfigs config) (startOf (choiceConfigs config) sticky).1
      (startOf (choiceConfigs config) sticky).2 call.attempt [] = (some (.ok ((), next)), attempts)) :
    stream classify config sticky call =
      (⟨(startOf (choiceConfigs config) sticky).1, attempts, some (.ok ())⟩, next.or sticky) := by
  unfold stream throughChain
  dsimp only
  rw [h]

theorem stream_of_error {sticky : Option Sticky} {call : Call ρ} {attempts : List (Attempt ρ)} {error : String}
    (h : downTheChain classify (choiceConfigs config) (startOf (choiceConfigs config) sticky).1
      (startOf (choiceConfigs config) sticky).2 call.attempt [] = (some (.error error), attempts)) :
    stream classify config sticky call =
      (⟨(startOf (choiceConfigs config) sticky).1, attempts, some (.error error)⟩, sticky) := by
  unfold stream throughChain
  dsimp only
  rw [h]

/-- What is known of a call: its chain, where it starts, and where the next one does. -/
structure StreamSpec (classify : String → ModelFailureKind) (config : AgentConfig) (sticky : Option Sticky)
    (out : CallResult ρ × Option Sticky) : Prop where
  chained : Chained classify config out.1
  start_eq : out.1.start = stickyIndex sticky
  next : stickyIndex out.2 = out.1.answered.getD (stickyIndex sticky)
  answers : ∀ index, out.1.answered = some index → stickyIndex sticky ≤ index ∧ index < (choiceConfigs config).length

theorem stream_spec (classify : String → ModelFailureKind) {sticky : Option Sticky} (hfits : Fits config sticky)
    (call : Call ρ) : StreamSpec classify config sticky (stream classify config sticky call) := by
  have hstart := startOf_fst hfits
  obtain ⟨out, attempts, answered, heq, hchain, hsound, hsettles, htotal⟩ :=
    @tryChoices_chain ρ classify (startOf (choiceConfigs config) sticky).1 (choiceConfigs config) call
      ((choiceConfigs config).zipIdx.drop (startOf (choiceConfigs config) sticky).1)
      (startOf (choiceConfigs config) sticky).2 none []
  rw [List.nil_append] at heq
  rw [hstart] at hchain htotal
  rcases answered with _ | index
  · rcases out with _ | error | ⟨⟨⟩, next⟩
    · have hlen := congrArg List.length (htotal rfl).1
      rw [List.length_drop, List.length_zipIdx, List.length_nil] at hlen
      have hlt : stickyIndex sticky < (choiceConfigs config).length := hfits
      omega
    · rw [stream_of_error heq, hstart]
      exact ⟨⟨hfits, hchain, hsound, by rintro ⟨⟩⟩, rfl, rfl, by rintro index ⟨⟩⟩
    · exact absurd rfl (hsettles _)
  · obtain ⟨reason, rfl⟩ := hsettles
    obtain ⟨hpos, choice, hchoice⟩ := hchain.last rfl
    rw [getElem?_choices] at hchoice
    obtain ⟨choice', hchoice', hpair⟩ := Option.map_eq_some_iff.mp hchoice
    have hlt := (List.getElem?_eq_some_iff.mp hchoice').1
    have hindex : stickyIndex sticky + (attempts.length - 1) = index := congrArg Prod.snd hpair
    rw [stream_of_ok heq, hstart]
    have hanswered : CallResult.answered ⟨stickyIndex sticky, attempts, some (.ok ())⟩ = some index := by
      rw [← hindex, ← Nat.add_sub_assoc hpos]
      rfl
    refine ⟨⟨hfits, ?_, hsound, by rintro ⟨⟩⟩, rfl, ?_, ?_⟩
    · rw [hanswered]
      exact hchain
    · rw [hanswered]
      by_cases hfallback : 0 < index
      · rw [if_pos hfallback]
        rfl
      · rw [if_neg hfallback]
        show stickyIndex sticky = index
        omega
    · intro index' hindex'
      rw [hanswered] at hindex'
      cases hindex'
      omega

theorem StreamSpec.fits {sticky : Option Sticky} {out : CallResult ρ × Option Sticky}
    (h : StreamSpec classify config sticky out) (hfits : Fits config sticky) : Fits config out.2 := by
  unfold Fits
  rw [h.next]
  rcases hanswered : out.1.answered with _ | index
  · exact hfits
  · exact (h.answers index hanswered).2

/-- **A run**, from what is sticky at its start. -/
structure RunFrom (classify : String → ModelFailureKind) (config : AgentConfig) (first : ℕ)
    (results : List (CallResult ρ)) : Prop where
  chained : ∀ r ∈ results, Chained classify config r
  start : ∀ before r after, results = before ++ r :: after →
    r.start = ((before.filterMap CallResult.answered).getLast?).getD first
  bounded : ∀ index ∈ results.filterMap CallResult.answered, first ≤ index
  monotone : (results.filterMap CallResult.answered).Pairwise (· ≤ ·)

theorem RunFrom.cons {sticky : Option Sticky} {out : CallResult ρ × Option Sticky} {results : List (CallResult ρ)}
    (h : RunFrom classify config (out.1.answered.getD (stickyIndex sticky)) results)
    (hspec : StreamSpec classify config sticky out) :
    RunFrom classify config (stickyIndex sticky) (out.1 :: results) where
  chained := List.forall_mem_cons.mpr ⟨hspec.chained, h.chained⟩
  start := by
    intro before r after heq
    rcases before with _ | ⟨first, before⟩
    · obtain ⟨rfl, -⟩ := List.cons_eq_cons.mp heq
      exact hspec.start_eq
    · obtain ⟨rfl, hrest⟩ := List.cons_eq_cons.mp heq
      rw [h.start before r after hrest]
      rcases hanswered : out.1.answered with _ | index
      · rw [List.filterMap_cons_none hanswered]
        rfl
      · rw [List.filterMap_cons_some hanswered, List.getLast?_cons]
        rfl
  bounded := by
    intro index hindex
    rcases hanswered : out.1.answered with _ | answer
    · rw [List.filterMap_cons_none hanswered] at hindex
      have hbound := h.bounded index hindex
      rw [hanswered] at hbound
      exact hbound
    · rw [List.filterMap_cons_some hanswered] at hindex
      have hlow := (hspec.answers answer hanswered).1
      rcases List.mem_cons.mp hindex with rfl | hindex
      · exact hlow
      · have hbound := h.bounded index hindex
        rw [hanswered] at hbound
        exact hlow.trans hbound
  monotone := by
    rcases hanswered : out.1.answered with _ | answer
    · rw [List.filterMap_cons_none hanswered]
      exact h.monotone
    · rw [List.filterMap_cons_some hanswered]
      have hbounded := h.bounded
      rw [hanswered] at hbounded
      exact List.Pairwise.cons hbounded h.monotone

theorem runFrom_spec (classify : String → ModelFailureKind) {sticky : Option Sticky} (hfits : Fits config sticky)
    (calls : List (Call ρ)) : RunFrom classify config (stickyIndex sticky) (runFrom classify config sticky calls) := by
  induction calls generalizing sticky with
  | nil =>
    refine ⟨fun r hr => absurd hr List.not_mem_nil, fun before r after heq => ?_, fun _ h => absurd h List.not_mem_nil,
      List.Pairwise.nil⟩
    exact absurd heq.symm (by simp [runFrom])
  | cons call calls ih =>
    have hspec := stream_spec classify hfits call
    have hrest := ih (hspec.fits hfits)
    rw [hspec.next] at hrest
    show RunFrom classify config (stickyIndex sticky) ((stream classify config sticky call).1 ::
      runFrom classify config (stream classify config sticky call).2 calls)
    exact hrest.cons hspec

/-- **When a reply never mixes two models.** -/
theorem unmixed_iff (classify : String → ModelFailureKind) (config : AgentConfig) (calls : List (Call ρ)) :
    Unmixed classify config (run classify config calls) ↔
      ∀ r ∈ run classify config calls, ∀ a ∈ r.attempts, ¬Unannounced a.sent := by
  have hrun : RunFrom classify config 0 (run classify config calls) := runFrom_spec classify fits_none calls
  constructor
  · exact fun h r hr => (hrun.chained r hr).announcedRight_iff.mp (h.announced r hr)
  · intro hnot
    refine ⟨hrun.start, fun r hr => ?_, fun r hr i a ha hlt => ?_, fun r hr i j a b ha hb hout hout' => ?_,
      fun r hr => ?_, hrun.monotone, fun r hr => (hrun.chained r hr).total⟩
    · exact ⟨(hrun.chained r hr).attempts_ne_nil, (hrun.chained r hr).tried⟩
    · have hchained := hrun.chained r hr
      have hquiet := hchained.chain.quiet ha hlt
      exact ⟨(hchained.sound a (List.mem_of_getElem? ha)).emitted hquiet, hchained.first (by omega)⟩
    · have hi := (hrun.chained r hr).last_of_output ha hout
      have hj := (hrun.chained r hr).last_of_output hb hout'
      omega
    · exact (hrun.chained r hr).announcedRight_iff.mpr (hnot r hr)

end

namespace Sample

def config : AgentConfig := { provider := some "openai", model := "gpt", fallbacks := [⟨"anthropic", "claude"⟩] }

/-- The primary fails; the fallback emits its `Final` once more after the sink refused the `Served` frame. -/
def call : Call Unit where
  adapter n _ := if n = 0 then .done (.error "overloaded")
    else .emit (.final ()) rfl fun _ => .emit (.final ()) rfl fun _ => .done (.ok ())
  sink _ call := if call.isServed then .error "closed" else .ok ()
  context := none

end Sample

/-- A reply comes from a fallback and the consumer does not read it. -/
theorem unread_fallback : ¬∀ (classify : String → ModelFailureKind) (config : AgentConfig) (calls : List (Call Unit)),
    Unmixed classify config (run classify config calls) := by
  intro hall
  have hright := (hall (fun _ => .overloaded) Sample.config [Sample.call]).announced _ (List.mem_singleton_self _)
  obtain ⟨reason, pre, response, post, hframes, -, -⟩ := hright 1 _ rfl ⟨.final (), List.mem_singleton_self _, rfl⟩
  have hone : (CallResult.frames (stream (fun _ => .overloaded) Sample.config none Sample.call).1).length = 1 := rfl
  have hlen := hone.symm.trans (congrArg List.length hframes)
  rw [List.length_append, List.length_cons, List.length_cons] at hlen
  omega

end AnimaCore.FallbackModel
