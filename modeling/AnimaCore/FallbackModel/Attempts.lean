import AnimaCore.FallbackModel

/-!
# AnimaCore.FallbackModel.Attempts — the attempts of a call

* `Announced`: where the `Served` frame of an attempt stands.  `run_spec`: what a sink is given in an attempt.
* `Chain`: the attempts of a call as a derivation.  `tryChoices_chain`: the loop leaves one.
-/

namespace AnimaCore.FallbackModel

open Lib

variable {ρ : Type}

namespace SinkCall

/-- The call gives the sink a `Served` frame. -/
def isServed : SinkCall ρ → Bool
  | .emit frame => frame.isServed
  | .completeUsage _ => false

/-- The call gives the sink a `Final` frame. -/
def isFinal : SinkCall ρ → Bool
  | .emit frame => frame.isFinal
  | .completeUsage _ => false

/-- The call gives the sink a text delta that is not empty, or a `Final` frame. -/
def isOutput : SinkCall ρ → Bool
  | .emit frame => frame.isOutput
  | .completeUsage _ => false

end SinkCall

theorem isOutput_of_isFinal {frame : ModelStreamFrame ρ} (h : frame.isFinal = true) : frame.isOutput = true := by
  cases frame with
  | final response => rfl
  | _ => cases h

/-! ## Delivered frames -/

def Delivery.frame (d : Delivery ρ) : Option (ModelStreamFrame ρ) :=
  match d.call, d.answer with
  | .emit frame, .ok () => some frame
  | _, _ => none

def delivered (sent : List (Delivery ρ)) : List (ModelStreamFrame ρ) := sent.filterMap Delivery.frame

theorem delivered_append (l l' : List (Delivery ρ)) : delivered (l ++ l') = delivered l ++ delivered l' :=
  List.filterMap_append

theorem frame_eq_some {d : Delivery ρ} {frame : ModelStreamFrame ρ} (h : d.frame = some frame) :
    d = ⟨.emit frame, .ok ()⟩ := by
  obtain ⟨call, answer⟩ := d
  rcases call with other | usage
  · rcases answer with error | ⟨⟩
    · cases h
    · cases h
      rfl
  · cases h

theorem mem_delivered {sent : List (Delivery ρ)} {frame : ModelStreamFrame ρ} :
    frame ∈ delivered sent ↔ ⟨.emit frame, .ok ()⟩ ∈ sent := by
  unfold delivered
  rw [List.mem_filterMap]
  constructor
  · rintro ⟨d, hd, hframe⟩
    rw [← frame_eq_some hframe]
    exact hd
  · intro h
    exact ⟨_, h, rfl⟩

/-! ## One attempt -/

def Plain (sent : List (Delivery ρ)) : Prop := ∀ d ∈ sent, d.call.isServed = false ∧ d.call.isFinal = false

/-- Without a frame to announce, no `Served` frame is sent.  With one, nothing final is sent before it, it is sent once,
and a `Final` comes directly after it unless the sink refuses it. -/
def Announced (served : Option (ModelStreamFrame ρ)) (sent : List (Delivery ρ)) : Prop :=
  match served with
  | none => ∀ d ∈ sent, d.call.isServed = false
  | some frame => Plain sent ∨
      ∃ front answer rest, sent = front ++ ⟨.emit frame, answer⟩ :: rest ∧ Plain front ∧
        (∀ d ∈ rest, d.call.isServed = false) ∧
        (answer = .ok () → ∃ response answer' rest', rest = ⟨.emit (.final response), answer'⟩ :: rest')

theorem announced_nil (served : Option (ModelStreamFrame ρ)) : Announced served [] := by
  rcases served with _ | frame
  · exact fun d hd => absurd hd List.not_mem_nil
  · exact Or.inl fun d hd => absurd hd List.not_mem_nil

theorem Announced.cons {served : Option (ModelStreamFrame ρ)} {sent : List (Delivery ρ)} (h : Announced served sent)
    {d : Delivery ρ} (hserved : d.call.isServed = false) (hfinal : d.call.isFinal = false) :
    Announced served (d :: sent) := by
  cases served with
  | none => exact List.forall_mem_cons.mpr ⟨hserved, h⟩
  | some frame =>
    rcases h with hnone | ⟨front, answer, rest, rfl, hfront, hrest, hnext⟩
    · exact Or.inl (List.forall_mem_cons.mpr ⟨⟨hserved, hfinal⟩, hnone⟩)
    · exact Or.inr ⟨d :: front, answer, rest, rfl, List.forall_mem_cons.mpr ⟨⟨hserved, hfinal⟩, hfront⟩, hrest, hnext⟩

/-- What comes of an `AttemptSink`: `output` says whether the adapter emitted output, `sent` is what the sink of the
consumer was given. -/
structure RunSpec (a last : AttemptSink ρ) (output : Bool) (sent : List (Delivery ρ)) : Prop where
  sent_eq : last.sent = a.sent ++ sent
  committed : last.committed = (a.committed || output)
  silent : output = false → ∀ d ∈ sent, d.call.isOutput = false ∧ d.call.isServed = false
  announced : Announced a.served sent

theorem forward_sent (sink : Sink ρ) (a : AttemptSink ρ) (call : SinkCall ρ) :
    (a.forward sink call).2.sent = a.sent ++ [⟨call, (a.forward sink call).1⟩] := rfl

theorem RunSpec.forward {sink : Sink ρ} {a b last : AttemptSink ρ} {call : SinkCall ρ} {output : Bool}
    {sent : List (Delivery ρ)} (h : RunSpec (b.forward sink call).2 last output sent) (hsent : b.sent = a.sent)
    (hserved : b.served = a.served) (hcommitted : b.committed = (a.committed || call.isOutput))
    (hown : call.isServed = false) (hfinal : call.isFinal = false ∨ a.served = none) :
    RunSpec a last (call.isOutput || output) (⟨call, (b.forward sink call).1⟩ :: sent) where
  sent_eq := by
    rw [h.sent_eq, forward_sent, hsent, List.append_assoc]
    rfl
  committed := by
    have hstep : (b.forward sink call).2.committed = (a.committed || call.isOutput) := hcommitted
    rw [h.committed, hstep, Bool.or_assoc]
  silent := by
    intro hquiet
    obtain ⟨hcall, hrest⟩ := Bool.or_eq_false_iff.mp hquiet
    exact List.forall_mem_cons.mpr ⟨⟨hcall, hown⟩, h.silent hrest⟩
  announced := by
    have hrest : Announced a.served sent := hserved ▸ h.announced
    rcases hfinal with hfinal | hnone
    · exact hrest.cons hown hfinal
    · rw [hnone] at hrest ⊢
      exact List.forall_mem_cons.mpr ⟨hown, hrest⟩

/-- The sink as the first `Final` of a fallback leaves it before it sends anything. -/
def AttemptSink.announcing (a : AttemptSink ρ) : AttemptSink ρ := { a with committed := true, served := none }

theorem emit_final_primary {a : AttemptSink ρ} (sink : Sink ρ) (response : ρ) (hserved : a.served = none) :
    a.emit sink (.final response) = ({ a with committed := true }).forward sink (.emit (.final response)) := by
  unfold AttemptSink.emit
  rw [hserved]

theorem emit_final_refused {a : AttemptSink ρ} {served : ModelStreamFrame ρ} {sink : Sink ρ} {error : String}
    (response : ρ) (hserved : a.served = some served)
    (hanswer : (a.announcing.forward sink (.emit served)).1 = .error error) :
    a.emit sink (.final response) = (.error error, (a.announcing.forward sink (.emit served)).2) := by
  unfold AttemptSink.emit
  rw [hserved]
  dsimp only
  rw [show ({ a with committed := true, served := none } : AttemptSink ρ) = a.announcing from rfl]
  rcases hforward : a.announcing.forward sink (.emit served) with ⟨answer, c⟩
  rw [hforward] at hanswer
  obtain rfl : answer = .error error := hanswer
  rfl

theorem emit_final_announced {a : AttemptSink ρ} {served : ModelStreamFrame ρ} {sink : Sink ρ} (response : ρ)
    (hserved : a.served = some served) (hanswer : (a.announcing.forward sink (.emit served)).1 = .ok ()) :
    a.emit sink (.final response) =
      (a.announcing.forward sink (.emit served)).2.forward sink (.emit (.final response)) := by
  unfold AttemptSink.emit
  rw [hserved]
  dsimp only
  rw [show ({ a with committed := true, served := none } : AttemptSink ρ) = a.announcing from rfl]
  rcases hforward : a.announcing.forward sink (.emit served) with ⟨answer, c⟩
  rw [hforward] at hanswer
  obtain rfl : answer = .ok () := hanswer
  rfl

theorem RunSpec.refused {sink : Sink ρ} {a last : AttemptSink ρ} {served : ModelStreamFrame ρ} {error : String}
    {output : Bool} {sent : List (Delivery ρ)} (hserved : a.served = some served)
    (hanswer : (a.announcing.forward sink (.emit served)).1 = .error error)
    (h : RunSpec (a.announcing.forward sink (.emit served)).2 last output sent) :
    RunSpec a last true (⟨.emit served, .error error⟩ :: sent) where
  sent_eq := by
    rw [h.sent_eq, forward_sent, hanswer, List.append_assoc]
    rfl
  committed := by
    have hstep : (a.announcing.forward sink (.emit served)).2.committed = true := rfl
    rw [h.committed, hstep, Bool.true_or, Bool.or_true]
  silent := fun hquiet => by cases hquiet
  announced := by
    have hrest : ∀ d ∈ sent, d.call.isServed = false := h.announced
    rw [hserved]
    exact Or.inr ⟨[], .error error, sent, rfl, fun d hd => absurd hd List.not_mem_nil, hrest, fun hok => by cases hok⟩

theorem RunSpec.announce {sink : Sink ρ} {a last : AttemptSink ρ} {served : ModelStreamFrame ρ} {response : ρ}
    {output : Bool} {sent : List (Delivery ρ)} (hserved : a.served = some served)
    (hanswer : (a.announcing.forward sink (.emit served)).1 = .ok ())
    (h : RunSpec ((a.announcing.forward sink (.emit served)).2.forward sink (.emit (.final response))).2 last output
      sent) :
    RunSpec a last true (⟨.emit served, .ok ()⟩ ::
      ⟨.emit (.final response),
        ((a.announcing.forward sink (.emit served)).2.forward sink (.emit (.final response))).1⟩ :: sent) where
  sent_eq := by
    rw [h.sent_eq, forward_sent, forward_sent, hanswer, List.append_assoc, List.append_assoc]
    rfl
  committed := by
    have hstep :
        ((a.announcing.forward sink (.emit served)).2.forward sink (.emit (.final response))).2.committed = true := rfl
    rw [h.committed, hstep, Bool.true_or, Bool.or_true]
  silent := fun hquiet => by cases hquiet
  announced := by
    have hrest : ∀ d ∈ sent, d.call.isServed = false := h.announced
    rw [hserved]
    exact Or.inr ⟨[], .ok (), _, rfl, fun d hd => absurd hd List.not_mem_nil,
      List.forall_mem_cons.mpr ⟨rfl, hrest⟩, fun _ => ⟨response, _, sent, rfl⟩⟩

theorem run_spec (sink : Sink ρ) (script : Script ρ) (a : AttemptSink ρ) :
    ∃ sent, RunSpec a (script.run sink a).2.2 ((script.run sink a).2.1.any ModelStreamFrame.isOutput) sent := by
  induction script generalizing a with
  | done result =>
    exact ⟨[], (List.append_nil _).symm, (Bool.or_false _).symm, fun _ d hd => absurd hd List.not_mem_nil,
      announced_nil a.served⟩
  | completeUsage usage next ih =>
    obtain ⟨sent, hspec⟩ := ih (a.completeUsage sink usage).1 (a.completeUsage sink usage).2
    exact ⟨_, RunSpec.forward (b := a) hspec rfl rfl (Bool.or_false _).symm rfl (Or.inl rfl)⟩
  | emit frame own next ih =>
    obtain ⟨sent, hspec⟩ := ih (a.emit sink frame).1 (a.emit sink frame).2
    cases frame with
    | served provider model reason => cases own
    | textDelta text => exact ⟨_, hspec.forward rfl rfl rfl rfl (Or.inl rfl)⟩
    | usage usage => exact ⟨_, hspec.forward rfl rfl (Bool.or_false _).symm rfl (Or.inl rfl)⟩
    | final response =>
      have hrun : (Script.emit (.final response) own next).run sink a =
          (((next (a.emit sink (.final response)).1).run sink (a.emit sink (.final response)).2).1,
            .final response ::
              ((next (a.emit sink (.final response)).1).run sink (a.emit sink (.final response)).2).2.1,
            ((next (a.emit sink (.final response)).1).run sink (a.emit sink (.final response)).2).2.2) := rfl
      rw [hrun]
      rcases hserved : a.served with _ | served
      · rw [emit_final_primary sink response hserved] at hspec ⊢
        exact ⟨_, hspec.forward rfl rfl (Bool.or_true _).symm rfl (Or.inr hserved)⟩
      · rcases hanswer : (a.announcing.forward sink (.emit served)).1 with error | ⟨⟩
        · rw [emit_final_refused response hserved hanswer] at hspec ⊢
          exact ⟨_, hspec.refused hserved hanswer⟩
        · rw [emit_final_announced response hserved hanswer] at hspec ⊢
          exact ⟨_, hspec.announce hserved hanswer⟩

structure Attempt.Sound (a : Attempt ρ) : Prop where
  announced : Announced a.served a.sent
  emitted : a.committed = false → ∀ frame ∈ a.emitted, frame.isOutput = false
  silent : a.committed = false → ∀ d ∈ a.sent, d.call.isOutput = false ∧ d.call.isServed = false

theorem sound_inner (call : Call ρ) (choice : AgentConfig) (served : Option (ModelStreamFrame ρ))
    (attempts : List (Attempt ρ)) (dead : Bool) :
    Attempt.Sound
      { choice, served, emitted := (call.inner choice served attempts).2.1,
        sent := (call.inner choice served attempts).2.2.sent, result := (call.inner choice served attempts).1,
        committed := (call.inner choice served attempts).2.2.committed || dead } := by
  obtain ⟨sent, hspec⟩ := run_spec (call.sinkAfter attempts) (call.adapter attempts.length choice) ⟨served, false, []⟩
  have hsent : (call.inner choice served attempts).2.2.sent = sent := hspec.sent_eq
  have hcommitted : (call.inner choice served attempts).2.2.committed =
      (call.inner choice served attempts).2.1.any ModelStreamFrame.isOutput := hspec.committed.trans (Bool.false_or _)
  have hquiet : ((call.inner choice served attempts).2.2.committed || dead) = false →
      (call.inner choice served attempts).2.1.any ModelStreamFrame.isOutput = false := by
    intro h
    rw [Bool.or_eq_false_iff, hcommitted] at h
    exact h.1
  rw [hsent]
  refine ⟨hspec.announced, fun h frame hframe => ?_, fun h => hspec.silent (hquiet h)⟩
  have hany := List.any_eq_false.mp (hquiet h) frame hframe
  rwa [Bool.not_eq_true] at hany

theorem attempt_eq (call : Call ρ) (choice : AgentConfig) (served : Option (ModelStreamFrame ρ))
    (attempts : List (Attempt ρ)) :
    ∃ a : Attempt ρ, call.attempt choice served attempts = ((a.result, a.committed), attempts ++ [a]) ∧
      a.choice = choice ∧ a.served = served ∧ a.Sound := by
  unfold Call.attempt
  rcases call.context with _ | live
  · refine ⟨_, rfl, rfl, rfl, ?_⟩
    have hsound := sound_inner call choice served attempts false
    rw [Bool.or_false] at hsound
    exact hsound
  · refine ⟨_, rfl, ?_⟩
    dsimp only
    unfold Call.streamControlledAttempt
    dsimp only
    rcases (live attempts.length).1 with error | ⟨⟩
    · exact ⟨rfl, rfl, announced_nil served, fun _ frame hframe => absurd hframe List.not_mem_nil,
        fun _ d hd => absurd hd List.not_mem_nil⟩
    · exact ⟨rfl, rfl, sound_inner call choice served attempts _⟩

/-! ## The announcement -/

theorem only_split {α : Type} {P : α → Bool} {x x' : α} {pre pre' post post' : List α}
    (h : pre ++ x :: post = pre' ++ x' :: post') (hx' : P x' = true) (hpre : ∀ y ∈ pre, P y = false)
    (hpost : ∀ y ∈ post, P y = false) : pre = pre' ∧ x = x' ∧ post = post' := by
  have hnot : ∀ y, y = x' → P y = false → False := by
    rintro y rfl hy
    rw [hx'] at hy
    cases hy
  rcases List.append_eq_append_iff.mp h with ⟨mid, rfl, hmid⟩ | ⟨mid, rfl, hmid⟩
  · rcases mid with _ | ⟨first, mid⟩
    · exact ⟨(List.append_nil pre).symm, List.cons_eq_cons.mp hmid⟩
    · obtain ⟨-, rfl⟩ := List.cons_eq_cons.mp hmid
      exact absurd (hpost x' (List.mem_append_right _ List.mem_cons_self)) (hnot x' rfl)
  · rcases mid with _ | ⟨first, mid⟩
    · obtain ⟨hfirst, hrest⟩ := List.cons_eq_cons.mp hmid
      exact ⟨List.append_nil pre', hfirst.symm, hrest.symm⟩
    · obtain ⟨rfl, -⟩ := List.cons_eq_cons.mp hmid
      exact absurd (hpre x' (List.mem_append_right _ List.mem_cons_self)) (hnot x' rfl)

theorem not_isFinal_of_isServed {frame : ModelStreamFrame ρ} (h : frame.isServed = true) : frame.isFinal = false := by
  cases frame with
  | served provider model reason => rfl
  | _ => cases h

theorem eq_final_of_isFinal {frame : ModelStreamFrame ρ} (h : frame.isFinal = true) :
    ∃ response, frame = .final response := by
  cases frame with
  | final response => exact ⟨response, rfl⟩
  | _ => cases h

/-- The consumer got a `Final` frame. -/
def HasFinal (frames : List (ModelStreamFrame ρ)) : Prop := ∃ frame ∈ frames, frame.isFinal = true

/-- The consumer reads the `Served` frame once, directly before the first `Final`. -/
def Announces (served : ModelStreamFrame ρ) (frames : List (ModelStreamFrame ρ)) : Prop :=
  ∃ pre response post, frames = pre ++ served :: .final response :: post ∧
    (∀ frame ∈ pre, frame.isServed = false ∧ frame.isFinal = false) ∧ ∀ frame ∈ post, frame.isServed = false

/-- The sink goes on after it refused a part of the announcement: it refused the `Served` frame and accepted a `Final`
after it, or it accepted the `Served` frame, refused the `Final` after it, and accepted another frame before a
`Final`. -/
def Unannounced (sent : List (Delivery ρ)) : Prop :=
  ∃ front served answer rest, sent = front ++ ⟨.emit served, answer⟩ :: rest ∧ served.isServed = true ∧
    HasFinal (delivered rest) ∧
    ((∃ error, answer = .error error) ∨ ∃ response error rest' other post, answer = .ok () ∧
      rest = ⟨.emit (.final response), .error error⟩ :: rest' ∧ delivered rest' = other :: post ∧ other.isFinal = false)

theorem HasFinal.append_right {frames : List (ModelStreamFrame ρ)} (h : HasFinal frames)
    (front : List (ModelStreamFrame ρ)) : HasFinal (front ++ frames) := by
  obtain ⟨frame, hframe, hfinal⟩ := h
  exact ⟨frame, List.mem_append_right _ hframe, hfinal⟩

theorem HasFinal.of_append {front frames : List (ModelStreamFrame ρ)} (h : HasFinal (front ++ frames))
    (hfront : ∀ frame ∈ front, frame.isServed = false ∧ frame.isFinal = false) : HasFinal frames := by
  obtain ⟨frame, hframe, hfinal⟩ := h
  rcases List.mem_append.mp hframe with hframe | hframe
  · rw [(hfront frame hframe).2] at hfinal
    cases hfinal
  · exact ⟨frame, hframe, hfinal⟩

theorem output_of_hasFinal {sent : List (Delivery ρ)} (hfinal : HasFinal (delivered sent)) :
    ∃ d ∈ sent, d.call.isOutput = true := by
  obtain ⟨frame, hframe, hisFinal⟩ := hfinal
  exact ⟨_, mem_delivered.mp hframe, isOutput_of_isFinal hisFinal⟩

theorem Unannounced.hasFinal {sent : List (Delivery ρ)} (h : Unannounced sent) : HasFinal (delivered sent) := by
  obtain ⟨front, served, answer, rest, rfl, -, hfinal, -⟩ := h
  rw [show ⟨.emit served, answer⟩ :: rest = [⟨.emit served, answer⟩] ++ rest from rfl, delivered_append, delivered_append]
  exact (hfinal.append_right _).append_right _

theorem announces_append {served : ModelStreamFrame ρ} (hserved : served.isServed = true)
    {front frames : List (ModelStreamFrame ρ)}
    (hfront : ∀ frame ∈ front, frame.isServed = false ∧ frame.isFinal = false) :
    Announces served (front ++ frames) ↔ Announces served frames := by
  constructor
  · rintro ⟨pre, response, post, heq, hpre, hpost⟩
    rcases List.append_eq_append_iff.mp heq with ⟨mid, rfl, hframes⟩ | ⟨mid, rfl, hframes⟩
    · exact ⟨mid, response, post, hframes, fun frame hframe => hpre frame (List.mem_append_right _ hframe), hpost⟩
    · rcases mid with _ | ⟨first, mid⟩
      · exact ⟨[], response, post, hframes.symm, fun frame hframe => absurd hframe List.not_mem_nil, hpost⟩
      · obtain ⟨rfl, -⟩ := List.cons_eq_cons.mp hframes
        have hnot := (hfront served (List.mem_append_right _ List.mem_cons_self)).1
        rw [hserved] at hnot
        cases hnot
  · rintro ⟨pre, response, post, rfl, hpre, hpost⟩
    refine ⟨front ++ pre, response, post, (List.append_assoc _ _ _).symm, fun frame hframe => ?_, hpost⟩
    rcases List.mem_append.mp hframe with hframe | hframe
    · exact hfront frame hframe
    · exact hpre frame hframe

theorem Announced.eq_of_announces {served served' : ModelStreamFrame ρ} {sent : List (Delivery ρ)}
    (h : Announced (some served) sent) (hserved' : served'.isServed = true) (ha : Announces served' (delivered sent)) :
    served' = served := by
  have hmem : ⟨.emit served', .ok ()⟩ ∈ sent := by
    obtain ⟨pre, response, post, heq, -, -⟩ := ha
    rw [← mem_delivered, heq]
    exact List.mem_append_right _ List.mem_cons_self
  have hnot : ∀ d ∈ sent, d.call.isServed = false → d ≠ ⟨.emit served', .ok ()⟩ := by
    rintro d - hd rfl
    have hfalse : served'.isServed = false := hd
    rw [hserved'] at hfalse
    cases hfalse
  rcases h with hplain | ⟨front, answer, rest, rfl, hfront, hrest, -⟩
  · exact absurd rfl (hnot _ hmem (hplain _ hmem).1)
  · rcases List.mem_append.mp hmem with hfirst | hlater
    · exact absurd rfl (hnot _ hmem (hfront _ hfirst).1)
    · rcases List.mem_cons.mp hlater with heq | hlater
      · cases heq
        rfl
      · exact absurd rfl (hnot _ hmem (hrest _ hlater))

theorem announces_iff {served : ModelStreamFrame ρ} {sent : List (Delivery ρ)} (hserved : served.isServed = true)
    (h : Announced (some served) sent) (hfinal : HasFinal (delivered sent)) :
    Announces served (delivered sent) ↔ ¬Unannounced sent := by
  rcases h with hplain | ⟨front, answer, rest, rfl, hfront, hrest, hnext⟩
  · obtain ⟨frame, hframe, hisFinal⟩ := hfinal
    have hnot : frame.isFinal = false := (hplain _ (mem_delivered.mp hframe)).2
    rw [hisFinal] at hnot
    cases hnot
  · have hcall : ∀ d ∈ front, d.call.isServed = false := fun d hd => (hfront d hd).1
    have hplainFront : ∀ frame ∈ delivered front, frame.isServed = false ∧ frame.isFinal = false :=
      fun frame hframe => hfront _ (mem_delivered.mp hframe)
    have hplainRest : ∀ frame ∈ delivered rest, frame.isServed = false :=
      fun frame hframe => hrest _ (mem_delivered.mp hframe)
    rcases answer with error | ⟨⟩
    · -- the `Served` frame is not delivered, a `Final` after it is
      have hframes : delivered (front ++ ⟨.emit served, .error error⟩ :: rest) = delivered front ++ delivered rest :=
        delivered_append _ _
      rw [hframes] at hfinal ⊢
      have hlater : HasFinal (delivered rest) := hfinal.of_append hplainFront
      refine iff_of_false ?_ fun hnot => hnot ⟨front, served, _, rest, rfl, hserved, hlater, Or.inl ⟨error, rfl⟩⟩
      rintro ⟨pre, response, post, heq, -, -⟩
      have hmem : served ∈ delivered front ++ delivered rest := by
        rw [heq]
        exact List.mem_append_right _ List.mem_cons_self
      have hnone : served.isServed = false := by
        rcases List.mem_append.mp hmem with hmem | hmem
        · exact (hplainFront served hmem).1
        · exact hplainRest served hmem
      rw [hserved] at hnone
      cases hnone
    · obtain ⟨response, answer', rest', rfl⟩ := hnext rfl
      have hframes : delivered (front ++ ⟨.emit served, .ok ()⟩ :: ⟨.emit (.final response), answer'⟩ :: rest') =
          delivered front ++ served :: delivered (⟨.emit (.final response), answer'⟩ :: rest') := delivered_append _ _
      rw [hframes] at hfinal ⊢
      rcases answer' with error | ⟨⟩
      · -- the `Final` is not delivered, another one is
        have hskip : delivered (⟨.emit (.final response), .error error⟩ :: rest') = delivered rest' := rfl
        rw [hskip] at hfinal hplainRest ⊢
        have hlater : HasFinal (delivered rest') := by
          obtain ⟨frame, hframe, hisFinal⟩ := hfinal.of_append hplainFront
          rcases List.mem_cons.mp hframe with rfl | hframe
          · rw [not_isFinal_of_isServed hserved] at hisFinal
            cases hisFinal
          · exact ⟨frame, hframe, hisFinal⟩
        constructor
        · rintro ⟨pre, response', post, heq, -, -⟩ ⟨front', served', ok, after, hsent, hserved', -, hcase⟩
          obtain ⟨-, -, hpost⟩ := only_split (P := ModelStreamFrame.isServed) heq hserved
            (fun frame hframe => (hplainFront frame hframe).1) hplainRest
          obtain ⟨-, hd, rfl⟩ := only_split (P := fun d => d.call.isServed) hsent hserved' hcall hrest
          rcases hcase with ⟨error', herror⟩ | ⟨_, _, after', other, post', -, hafter, hother, hnot⟩
          · obtain rfl := herror
            cases hd
          · obtain ⟨-, rfl⟩ := List.cons_eq_cons.mp hafter
            rw [hpost] at hother
            obtain ⟨rfl, -⟩ := List.cons_eq_cons.mp hother
            cases hnot
        · intro hnot
          rcases hrest' : delivered rest' with _ | ⟨other, post⟩
          · obtain ⟨frame, hframe, -⟩ := hlater
            rw [hrest'] at hframe
            exact absurd hframe List.not_mem_nil
          · rcases hother : other.isFinal with _ | _
            · exact absurd ⟨front, served, _, _, rfl, hserved, hskip ▸ hlater,
                Or.inr ⟨response, error, rest', other, post, rfl, rfl, hrest', hother⟩⟩ hnot
            · obtain ⟨response', rfl⟩ := eq_final_of_isFinal hother
              rw [hrest'] at hplainRest
              exact ⟨_, response', post, rfl, hplainFront,
                fun frame hframe => hplainRest frame (List.mem_cons_of_mem _ hframe)⟩
      · have hkept : delivered (⟨.emit (.final response), .ok ()⟩ :: rest') = .final response :: delivered rest' := rfl
        rw [hkept] at hplainRest ⊢
        refine iff_of_true ⟨_, response, _, rfl, hplainFront,
          fun frame hframe => hplainRest frame (List.mem_cons_of_mem _ hframe)⟩ ?_
        rintro ⟨front', served', ok, after, hsent, hserved', -, hcase⟩
        obtain ⟨-, hd, rfl⟩ := only_split (P := fun d => d.call.isServed) hsent hserved' hcall hrest
        rcases hcase with ⟨error', herror⟩ | ⟨_, _, after', other, post', -, hafter, -, -⟩
        · obtain rfl := herror
          cases hd
        · cases hafter

/-! ## One call -/

section Chain

variable (classify : String → ModelFailureKind) (start : ℕ)

/-- The attempts of a call, and the index of the choice that answered, by the choices that were left. -/
inductive Chain : List (AgentConfig × ℕ) → List (Attempt ρ) → Option ℕ → Prop
  | exhausted : Chain [] [] none
  | answers {choice index rest reason} {a : Attempt ρ} (hchoice : a.choice = choice)
      (hserved : a.served = servedFrame index choice reason) (hresult : a.result = .ok ()) :
      Chain ((choice, index) :: rest) [a] (some index)
  | stops {choice index rest reason error} {a : Attempt ρ} (hchoice : a.choice = choice)
      (hserved : a.served = servedFrame index choice reason) (hresult : a.result = .error error) :
      Chain ((choice, index) :: rest) [a] none
  | goesOn {choice index rest reason error attempts answered} {a : Attempt ρ} (hchoice : a.choice = choice)
      (hserved : a.served = servedFrame index choice reason) (hresult : a.result = .error error)
      (hquiet : a.committed = false) (hfirst : index = start → (classify error).fallsBack = true)
      (later : Chain rest attempts answered) :
      Chain ((choice, index) :: rest) (a :: attempts) answered

variable {classify start} {choices : List (AgentConfig × ℕ)} {attempts : List (Attempt ρ)} {answered : Option ℕ}

theorem Chain.tried (h : Chain classify start choices attempts answered) :
    attempts.map (·.choice) = (choices.take attempts.length).map Prod.fst := by
  induction h with
  | exhausted => rfl
  | answers hchoice _ _ => rw [List.map_singleton, hchoice]; rfl
  | stops hchoice _ _ => rw [List.map_singleton, hchoice]; rfl
  | goesOn hchoice _ _ _ _ _ ih => rw [List.map_cons, hchoice, ih]; rfl

theorem Chain.ne_nil (h : Chain classify start choices attempts answered) (hne : choices ≠ []) : attempts ≠ [] := by
  cases h with
  | exhausted => exact absurd rfl hne
  | answers => exact List.cons_ne_nil _ _
  | stops => exact List.cons_ne_nil _ _
  | goesOn => exact List.cons_ne_nil _ _

theorem Chain.named (h : Chain classify start choices attempts answered) {i : ℕ} {a : Attempt ρ}
    (ha : attempts[i]? = some a) :
    ∃ index reason, choices[i]? = some (a.choice, index) ∧ a.served = servedFrame index a.choice reason := by
  induction h generalizing i with
  | exhausted => cases ha
  | @answers choice index rest reason b hchoice hserved _ =>
    rcases i with _ | i
    · cases ha
      exact ⟨index, reason, by rw [hchoice]; rfl, by rw [hchoice]; exact hserved⟩
    · cases ha
  | @stops choice index rest reason error b hchoice hserved _ =>
    rcases i with _ | i
    · cases ha
      exact ⟨index, reason, by rw [hchoice]; rfl, by rw [hchoice]; exact hserved⟩
    · cases ha
  | @goesOn choice index rest reason error as ans b hchoice hserved _ _ _ _ ih =>
    rcases i with _ | i
    · cases ha
      exact ⟨index, reason, by rw [hchoice]; rfl, by rw [hchoice]; exact hserved⟩
    · exact ih ha

theorem Chain.quiet (h : Chain classify start choices attempts answered) {i : ℕ} {a : Attempt ρ}
    (ha : attempts[i]? = some a) (hi : i + 1 < attempts.length) : a.committed = false := by
  induction h generalizing i with
  | exhausted => cases ha
  | answers => exact absurd hi (by simp)
  | stops => exact absurd hi (by simp)
  | goesOn _ _ _ hquiet _ _ ih =>
    rcases i with _ | i
    · cases ha
      exact hquiet
    · exact ih ha (by simpa using hi)

theorem Chain.first (h : Chain classify start choices attempts answered) (hmore : 1 < attempts.length)
    {choice : AgentConfig} (hhead : choices[0]? = some (choice, start)) :
    ∃ a error, attempts[0]? = some a ∧ a.result = .error error ∧ (classify error).fallsBack = true := by
  cases h with
  | exhausted => exact absurd hmore (by simp)
  | answers => exact absurd hmore (by simp)
  | stops => exact absurd hmore (by simp)
  | goesOn _ _ hresult _ hfirst _ =>
    cases hhead
    exact ⟨_, _, rfl, hresult, hfirst rfl⟩

theorem Chain.last (h : Chain classify start choices attempts answered) {index : ℕ} (ha : answered = some index) :
    0 < attempts.length ∧ ∃ choice, choices[attempts.length - 1]? = some (choice, index) := by
  induction h with
  | exhausted => cases ha
  | answers =>
    cases ha
    exact ⟨Nat.one_pos, _, rfl⟩
  | stops => cases ha
  | @goesOn _ _ rest _ _ as _ a _ _ _ _ _ _ ih =>
    obtain ⟨hpos, choice, hchoice⟩ := ih ha
    have hsum : (a :: as).length - 1 = (as.length - 1) + 1 := by
      rw [List.length_cons]
      omega
    refine ⟨Nat.succ_pos _, choice, ?_⟩
    rw [hsum, List.getElem?_cons_succ]
    exact hchoice

/-- What a call answers, by the index of the choice that answered. -/
def Settles (answered : Option ℕ) (out : Option (Except String (Unit × Option Sticky))) : Prop :=
  match answered with
  | some index => ∃ reason, out = some (.ok ((), if 0 < index then some ⟨index, reason⟩ else none))
  | none => ∀ value, out ≠ some (.ok value)

theorem tryChoices_chain (all : List AgentConfig) (call : Call ρ) (choices : List (AgentConfig × ℕ))
    (reason firstError : Option String) (before : List (Attempt ρ)) :
    ∃ out attempts answered,
      tryChoices classify all start call.attempt choices reason firstError before = (out, before ++ attempts) ∧
      Chain classify start choices attempts answered ∧ (∀ a ∈ attempts, a.Sound) ∧ Settles answered out ∧
      (out = none → choices = [] ∧ firstError = none) := by
  induction choices generalizing reason firstError before with
  | nil =>
    refine ⟨_, [], none, by rw [List.append_nil]; rfl, .exhausted, fun a ha => absurd ha List.not_mem_nil, ?_, ?_⟩
    · intro value hvalue
      unfold exhausted at hvalue
      obtain ⟨error, -, herror⟩ := Option.map_eq_some_iff.mp hvalue
      split_ifs at herror
    · intro hnone
      unfold exhausted at hnone
      exact ⟨rfl, Option.map_eq_none_iff.mp hnone⟩
  | cons entry rest ih =>
    obtain ⟨choice, index⟩ := entry
    obtain ⟨a, hattempt, hchoice, hserved, hsound⟩ := attempt_eq call choice (servedFrame index choice reason) before
    unfold tryChoices
    rw [hattempt]
    rcases hresult : a.result with error | ⟨⟩
    · dsimp only
      by_cases hstop : (a.committed || (index == start && !(classify error).fallsBack)) = true
      · rw [if_pos hstop]
        refine ⟨_, [a], none, rfl, .stops hchoice hserved hresult, ?_, by rintro value ⟨⟩, by rintro ⟨⟩⟩
        intro b hb
        rw [List.mem_singleton.mp hb]
        exact hsound
      · rw [if_neg hstop]
        rw [Bool.not_eq_true, Bool.or_eq_false_iff] at hstop
        obtain ⟨out, attempts, answered, heq, hchain, hall, hsettles, htotal⟩ :=
          ih (some (reason.getD (reasonFor (classify error)))) (some (firstError.getD error)) (before ++ [a])
        refine ⟨out, a :: attempts, answered, by rw [heq, List.append_assoc]; rfl, ?_,
          List.forall_mem_cons.mpr ⟨hsound, hall⟩, hsettles, fun hnone => by cases (htotal hnone).2⟩
        refine .goesOn hchoice hserved hresult hstop.1 (fun hindex => ?_) hchain
        have hkind := hstop.2
        rw [hindex, beq_self_eq_true, Bool.true_and, Bool.not_eq_false'] at hkind
        exact hkind
    · refine ⟨_, [a], some index, rfl, .answers hchoice hserved hresult, ?_, ⟨_, rfl⟩, by rintro ⟨⟩⟩
      intro b hb
      rw [List.mem_singleton.mp hb]
      exact hsound

end Chain

end AnimaCore.FallbackModel
