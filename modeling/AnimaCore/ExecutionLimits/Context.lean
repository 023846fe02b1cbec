import AnimaCore.ExecutionLimits.ExactAdmission
import AnimaCore.RunDelta

/-!
# AnimaCore.ExecutionLimits.Context — preparing a model request within the budget

`execution_limits/context.rs`: `ModelCallContext::prepare_request` clamps the output of a model request to what the scope's
allowance leaves, before the request is reserved.

* What `check_live` and the waits see is a `Moment`: the clock, a recorded failure, the cancel signals with the error of
  each.  A call reads a sequence of moments; nothing is assumed of them.
* `jsonLen` is the length of the `serde_json` text, `none` where it fails.  The temperature of a request is not read.
* The port is the scope itself, as in `InMemoryExecutionBudget`.
-/

namespace AnimaCore.ModelCalls

open Lib RunDelta

structure Moment where
  nowMs : ℕ
  failure : Option String
  /-- `run_error` of the cancelled signal. -/
  cancelled : Option String
  secondaryCancelled : Option String
  requestCancelled : Bool

structure ExecutionContext where
  runId : String
  deadlineAtMs : ℕ

structure ModelCallContext where
  execution : ExecutionContext
  logicalCallId : String

structure AgentSettings where
  maxTokens : Option ℕ

/-- `AgentConfig`; `T` stands for `ToolDescriptor`. -/
structure AgentConfig (T : Type) where
  tools : Option (List T)
  settings : Option AgentSettings

structure ModelGenerateRequest where
  system : String
  messages : List Message
  maxTokens : Option ℕ
  deriving DecidableEq

def refuse (error : Option String) : LimitsResult Unit :=
  match error with
  | some message => .error (.rejected message)
  | none => .ok ()

def deadlineReached : LimitsFault := .rejected "Shared execution deadline reached"

namespace ExecutionContext

def checkLive (c : ExecutionContext) (m : Moment) : LimitsResult Unit := do
  refuse m.failure
  refuse m.cancelled
  refuse m.secondaryCancelled
  ensure (m.nowMs < c.deadlineAtMs) deadlineReached

/-- `ExecutionContext::wait` with the signal of a request: a check, then the first of the signals, the deadline and the
work that is ready. -/
def wait {α : Type} (c : ExecutionContext) (start m : Moment) (work : LimitsResult α) : LimitsResult α := do
  c.checkLive start
  refuse m.cancelled
  refuse m.secondaryCancelled
  ensure (m.requestCancelled = false) (.rejected "Execution request cancelled")
  ensure (m.nowMs < c.deadlineAtMs) deadlineReached
  work

def checkAuthorityFor (c : ExecutionContext) (s : ExecutionScope) (moments : ℕ → Moment) :
    LimitsResult ExecutionAllowance := do
  c.checkLive (moments 0)
  let allowance ← c.wait (moments 1) (moments 2) (s.allowance (moments 3).nowMs)
  c.checkLive (moments 4)
  ensure (c.deadlineAtMs ≤ allowance.deadlineAtMs)
    (.rejected "Execution deadline binding changed; explicit reattachment required")
  ensure ((moments 5).nowMs < allowance.deadlineAtMs) deadlineReached
  return allowance

end ExecutionContext

def reservationInput {T : Type} (jsonLen : String × List Message × Option (List T) → Option ℕ) (config : AgentConfig T)
    (request : ModelGenerateRequest) (allowance : ExecutionAllowance) : LimitsResult ℕ := do
  if request.messages.any fun m => m.content.attachments.any fun a => !a.isEmpty then
    -- all of the remaining input is reserved for media
    return allowance.remainingInputTokens
  else
    let bytes ← okOr (jsonLen (request.system, request.messages, config.tools)) (.rejected "Model request cannot be reserved")
    okOr (checkedAdd 64 bytes 256) (.rejected "Model request reservation overflow")

def requestedMaxTokens {T : Type} (config : AgentConfig T) (request : ModelGenerateRequest) : ℕ :=
  (request.maxTokens.or (config.settings.bind (·.maxTokens))).getD 4096

namespace ModelCallContext

def checkLive (c : ModelCallContext) (m : Moment) : LimitsResult Unit := do
  c.execution.checkLive m
  ensure (m.requestCancelled = false) (.rejected "Model request cancelled")

def prepareRequest {T : Type} (c : ModelCallContext) (jsonLen : String × List Message × Option (List T) → Option ℕ)
    (s : ExecutionScope) (config : AgentConfig T) (request : ModelGenerateRequest) (moments : ℕ → Moment) :
    LimitsResult ModelGenerateRequest := do
  c.checkLive (moments 0)
  let allowance ← c.execution.checkAuthorityFor s fun i => moments (i + 1)
  let input ← reservationInput jsonLen config request allowance
  let output := min (min (requestedMaxTokens config request) allowance.remainingOutputTokens)
    (allowance.remainingTotalTokens - input)
  ensure (input ≠ 0 ∧ input ≤ allowance.remainingInputTokens ∧ output ≠ 0)
    (.rejected "Shared execution token allowance exhausted")
  ensure (output < 2 ^ 32) (.rejected "Invalid model output allowance")
  c.checkLive (moments 7)
  return { request with maxTokens := some output }

/-- The request of `reserve_model_attempt`. -/
def modelAttempt (c : ModelCallContext) (id : String) (input output : ℕ) : ReservationRequest :=
  { id, runId := c.execution.runId, logicalCallId := c.logicalCallId, operation := .modelAttempt, inputTokens := input
    outputTokens := output }

end ModelCallContext

end AnimaCore.ModelCalls

namespace AnimaCore

open Lib

/-! ## What the allowance leaves -/

namespace ExecutionScope

variable {s : ExecutionScope} {request : ReservationRequest} {nowMs : ℕ}

theorem allowance_spec {allowance : ExecutionAllowance} (h : s.allowance nowMs = .ok allowance) :
    s.checkAllowance nowMs = .ok () ∧ ∃ maxInput maxOutput maxTotal,
      s.limits.budget.maxInputTokens = some maxInput ∧ s.limits.budget.maxOutputTokens = some maxOutput ∧
        s.limits.budget.maxTotalTokens = some maxTotal ∧
        allowance = ⟨s.deadlineAtMs, maxInput - s.chargedInput, maxOutput - s.chargedOutput,
          maxTotal - s.chargedTotal⟩ := by
  simp only [ExecutionScope.allowance, bind_eq_ok, okOr_eq_ok] at h
  obtain ⟨_, _, _, hcheck, usage, hc, maxInput, hin, maxOutput, hout, maxTotal, htot, hal⟩ := h
  obtain ⟨hcin, hcout, hctot, _⟩ := consumption_charged hc
  cases hal
  rw [hcin, hcout, hctot]
  exact ⟨hcheck, maxInput, maxOutput, maxTotal, hin, hout, htot, rfl⟩

theorem checkAllowance_sumsUp (h : s.checkAllowance nowMs = .ok ()) : s.SumsUp := by
  simp only [checkAllowance, bind_eq_ok, ensure_eq_ok, toLimits_eq_ok] at h
  obtain ⟨usage, hc, _, _, decision, hdec, _⟩ := h
  obtain ⟨hin, hout, htot, _⟩ := consumption_charged hc
  simp only [Budget.evaluate, bind_eq_ok, Usage.validate, okOr_eq_ok, checkedAdd_eq_some, ensure_eq_ok] at hdec
  obtain ⟨_, _, _, ⟨_, ⟨_, rfl⟩, hsum⟩, _⟩ := hdec
  rw [hin, hout, htot] at hsum
  exact s.sumsUp_iff.mpr hsum

theorem admitted_charged (request : ReservationRequest) (hfresh : s.reservations[request.id]? = none) :
    (s.admitted request).chargedInput = s.chargedInput + request.inputTokens ∧
      (s.admitted request).chargedOutput = s.chargedOutput + request.outputTokens ∧
      (s.admitted request).chargedTotal = s.chargedTotal + (request.inputTokens + request.outputTokens) := by
  have hin : (unsettled request).chargedInput = request.inputTokens := Nat.max_zero _
  have hout : (unsettled request).chargedOutput = request.outputTokens := Nat.max_zero _
  have htot : (unsettled request).chargedTotal = request.inputTokens + request.outputTokens := by
    unfold ExecutionReservation.chargedTotal
    rw [hin, hout]
    exact Nat.zero_max _
  have hsum : ∀ f : ExecutionReservation → ℕ,
      ((s.admitted request).values.map f).sum = (s.values.map f).sum + f (unsettled request) := by
    intro f
    rw [((admitted_values hfresh).map f).sum_eq, List.map_cons, List.sum_cons]
    omega
  unfold chargedInput chargedOutput chargedTotal
  rw [hsum, hsum, hsum, hin, hout, htot]
  exact ⟨rfl, rfl, rfl⟩

/-- The counts and the budget fields other than tokens leave room. -/
structure HasRoom (s : ExecutionScope) (nowMs : ℕ) : Prop where
  operations : s.WithinLimits
  wallTime : ∀ m, s.limits.budget.maxWallTimeMs = some m → nowMs - s.createdAtMs ≤ m
  logicalCalls : ∀ m, s.limits.budget.maxTurns = some m → s.logicalModelCalls ≤ m
  toolCalls : ∀ m, s.limits.budget.maxCapabilitySteps = some m → s.toolCalls ≤ m
  concurrentRuns : s.ConcurrentRunsFit

end ExecutionScope

end AnimaCore

namespace AnimaCore.ModelCalls

open Lib RunDelta ExecutionScope

variable {T : Type} {jsonLen : String × List Message × Option (List T) → Option ℕ} {c : ModelCallContext}
  {s : ExecutionScope} {config : AgentConfig T} {request prepared : ModelGenerateRequest} {moments : ℕ → Moment}

theorem prepareRequest_spec (h : c.prepareRequest jsonLen s config request moments = .ok prepared) :
    ∃ at_ allowance input maxTokens, s.allowance at_ = .ok allowance ∧
      reservationInput jsonLen config request allowance = .ok input ∧
      maxTokens = min (min (requestedMaxTokens config request) allowance.remainingOutputTokens)
        (allowance.remainingTotalTokens - input) ∧
      input ≠ 0 ∧ input ≤ allowance.remainingInputTokens ∧ maxTokens ≠ 0 ∧
      prepared = { request with maxTokens := some maxTokens } := by
  simp only [ModelCallContext.prepareRequest, bind_eq_ok, ensure_eq_ok] at h
  obtain ⟨_, _, allowance, hauth, input, hinput, _, ⟨hpos, hle, hout⟩, _, _, _, _, hprepared⟩ := h
  simp only [ExecutionContext.checkAuthorityFor, ExecutionContext.wait, bind_eq_ok, ensure_eq_ok] at hauth
  obtain ⟨_, _, allowance', ⟨_, _, _, _, _, _, _, _, _, _, hallow⟩, _, _, _, _, _, _, hsame⟩ := hauth
  cases hsame
  cases hprepared
  exact ⟨_, allowance, input, _, hallow, hinput, rfl, hpos, hle, hout, rfl⟩

theorem reservationInput_eq {allowance allowance' : ExecutionAllowance} {output : Option ℕ}
    (h : allowance.remainingInputTokens = allowance'.remainingInputTokens) :
    reservationInput jsonLen config { request with maxTokens := output } allowance' =
      reservationInput jsonLen config request allowance := by
  unfold reservationInput
  rw [h]

theorem prepareRequest_room (h : c.prepareRequest jsonLen s config request moments = .ok prepared) :
    ∃ readMs allowance input maxTokens maxInput maxOutput maxTotal, s.allowance readMs = .ok allowance ∧
      allowance.remainingInputTokens = maxInput - s.chargedInput ∧
      reservationInput jsonLen config request allowance = .ok input ∧
      prepared = { request with maxTokens := some maxTokens } ∧ maxTokens ≤ requestedMaxTokens config request ∧
      s.limits.budget.maxInputTokens = some maxInput ∧ s.limits.budget.maxOutputTokens = some maxOutput ∧
      s.limits.budget.maxTotalTokens = some maxTotal ∧ input ≠ 0 ∧ maxTokens ≠ 0 ∧ s.chargedInput + input ≤ maxInput ∧
      s.chargedOutput + maxTokens ≤ maxOutput ∧ s.chargedTotal + (input + maxTokens) ≤ maxTotal := by
  obtain ⟨readMs, allowance, input, maxTokens, hallow, hinput, hmax, hpos, hle, hout, hprepared⟩ := prepareRequest_spec h
  obtain ⟨_, maxInput, maxOutput, maxTotal, hmaxIn, hmaxOut, hmaxTot, rfl⟩ := allowance_spec hallow
  dsimp only at hmax hle
  refine ⟨readMs, _, input, maxTokens, maxInput, maxOutput, maxTotal, hallow, rfl, hinput, hprepared, ?_, hmaxIn, hmaxOut,
    hmaxTot, hpos, hout, ?_, ?_, ?_⟩
  all_goals omega

theorem prepared_granted_iff {rid : String} {nowMs input maxTokens maxInput maxOutput maxTotal : ℕ}
    (hv : s.validate = .ok ()) (hword : maxTotal < 2 ^ 64) (hsum : s.SumsUp)
    (hmaxIn : s.limits.budget.maxInputTokens = some maxInput) (hmaxOut : s.limits.budget.maxOutputTokens = some maxOutput)
    (hmaxTot : s.limits.budget.maxTotalTokens = some maxTotal) (hpos : input ≠ 0) (hout : maxTokens ≠ 0)
    (hfitsIn : s.chargedInput + input ≤ maxInput) (hfitsOut : s.chargedOutput + maxTokens ≤ maxOutput)
    (hfitsTot : s.chargedTotal + (input + maxTokens) ≤ maxTotal) (hrid : validateExecutionId rid = .ok ())
    (hrun : validateExecutionId c.execution.runId = .ok ()) (hlogical : validateExecutionId c.logicalCallId = .ok ())
    (hfresh : s.reservations[rid]? = none) (hfrom : s.createdAtMs ≤ nowMs) (huntil : nowMs < s.deadlineAtMs)
    (hroom : (s.admitted (c.modelAttempt rid input maxTokens)).HasRoom nowMs) :
    (∃ next, s.reserve (c.modelAttempt rid input maxTokens) nowMs = .ok (.newlyGranted, next)) ↔
      s.limits.budget.BelowApproval ((s.admitted (c.modelAttempt rid input maxTokens)).charged nowMs) ∧
        s.version + 1 < 2 ^ 64 := by
  obtain ⟨hchargedIn, hchargedOut, hchargedTot⟩ := admitted_charged (c.modelAttempt rid input maxTokens) hfresh
  have hreq : (c.modelAttempt rid input maxTokens).validate = .ok () := by
    simp only [ReservationRequest.validate, bind_eq_ok, ensure_eq_ok, okOr_eq_ok, checkedAdd_eq_some]
    refine ⟨(), hrid, (), hrun, (), hlogical, (), ?_, _, ⟨?_, rfl⟩, rfl⟩
    · simp [ModelCallContext.modelAttempt, hpos, hout]
    · show input + maxTokens < 2 ^ 64
      omega
  have hsame : (s.admitted (c.modelAttempt rid input maxTokens)).limits = s.limits := rfl
  have hfits : (s.admitted (c.modelAttempt rid input maxTokens)).Fits nowMs := by
    refine ⟨hroom.operations, hroom.wallTime, hroom.logicalCalls, hroom.toolCalls, ?_, ?_, ?_⟩
    · intro m hm
      rw [hsame, hmaxIn] at hm
      cases hm
      rw [hchargedIn]
      exact hfitsIn
    · intro m hm
      rw [hsame, hmaxOut] at hm
      cases hm
      rw [hchargedOut]
      exact hfitsOut
    · intro m hm
      rw [hsame, hmaxTot] at hm
      cases hm
      rw [hchargedTot]
      exact hfitsTot
  have hmaxWord : ∀ m, s.limits.budget.maxTotalTokens = some m → m < 2 ^ 64 := by
    intro m hm
    rw [hmaxTot] at hm
    cases hm
    exact hword
  rw [reserve_granted_iff hv hmaxWord hreq hfresh hfrom huntil hfits]
  constructor
  · rintro ⟨-, -, hbelow, hversion⟩
    exact ⟨hbelow, hversion⟩
  · rintro ⟨hbelow, hversion⟩
    exact ⟨hsum, hroom.concurrentRuns, hbelow, hversion⟩

/-- **A prepared request fits the budget it was prepared for.**  On every reached scope: the output of a prepared request
is at most what the caller asked for; what is reserved for it is the same whenever the allowance is read again; and where
the counts and the other budget fields leave room, reserving that input and output under a fresh identity is granted iff
the amounts after it stay below the approval threshold and the version counter has room. -/
theorem prepared_fits {id rootRunId : String} {limits : ExecutionLimits} {createdMs : ℕ} {s₀ : ExecutionScope}
    (h : ExecutionScope.new id rootRunId limits createdMs = .ok s₀)
    (hword : ∀ m, limits.budget.maxTotalTokens = some m → m < 2 ^ 64) (calls : List ExecutionScope.Call)
    (hprepared : c.prepareRequest jsonLen (run ExecutionScope.step s₀ calls) config request moments = .ok prepared) :
    let s := run ExecutionScope.step s₀ calls
    ∃ input maxTokens, prepared.maxTokens = some maxTokens ∧ maxTokens ≤ requestedMaxTokens config request ∧
      (∃ readMs allowance, s.allowance readMs = .ok allowance) ∧
      (∀ readMs allowance, s.allowance readMs = .ok allowance →
        reservationInput jsonLen config prepared allowance = .ok input) ∧
      ∀ (rid : String) (nowMs : ℕ), validateExecutionId rid = .ok () → validateExecutionId c.execution.runId = .ok () →
        validateExecutionId c.logicalCallId = .ok () → s.reservations[rid]? = none → s.createdAtMs ≤ nowMs →
        nowMs < s.deadlineAtMs → (s.admitted (c.modelAttempt rid input maxTokens)).HasRoom nowMs →
        ((∃ next, s.reserve (c.modelAttempt rid input maxTokens) nowMs = .ok (.newlyGranted, next)) ↔
          s.limits.budget.BelowApproval ((s.admitted (c.modelAttempt rid input maxTokens)).charged nowMs) ∧
            s.version + 1 < 2 ^ 64) := by
  have hv : (run ExecutionScope.step s₀ calls).validate = .ok () := reached_valid h calls
  have hlimits : (run ExecutionScope.step s₀ calls).limits = limits := by
    refine run_induction ExecutionScope.step s₀ (P := fun _ s => s.limits = limits) calls (new_spec h).1 ?_
    exact fun l call hl => (step_frame _ call).1.trans hl
  rw [← hlimits] at hword
  generalize run ExecutionScope.step s₀ calls = s at *
  obtain ⟨readMs, allowance, input, maxTokens, maxInput, maxOutput, maxTotal, hallow, hrem, hinput, rfl, hle, hmaxIn,
    hmaxOut, hmaxTot, hpos, hout, hfitsIn, hfitsOut, hfitsTot⟩ := prepareRequest_room hprepared
  refine ⟨input, maxTokens, rfl, hle, ⟨_, _, hallow⟩, ?_, ?_⟩
  · intro readMs' allowance' hallow'
    obtain ⟨_, maxInput', _, _, hmaxIn', _, _, rfl⟩ := allowance_spec hallow'
    rw [hmaxIn] at hmaxIn'
    cases hmaxIn'
    rw [← hinput]
    exact reservationInput_eq hrem
  · intro rid nowMs hrid hrun hlogical hfresh hfrom huntil hroom
    have hsum : s.SumsUp := checkAllowance_sumsUp (allowance_spec hallow).1
    exact prepared_granted_iff hv (hword maxTotal hmaxTot) hsum hmaxIn hmaxOut hmaxTot hpos hout hfitsIn hfitsOut hfitsTot
      hrid hrun hlogical hfresh hfrom huntil hroom

namespace Sample

def live (nowMs : ℕ) : Moment :=
  { nowMs, failure := none, cancelled := none, secondaryCancelled := none, requestCancelled := false }

def call : ModelCallContext := { execution := { runId := "root", deadlineAtMs := 1100 }, logicalCallId := "call" }

def plainAgent : AgentConfig Unit := { tools := none, settings := none }

def greeting : ModelGenerateRequest := { system := "hi", messages := [], maxTokens := none }

/-- The length of the text of a plain system prompt without messages or tools. -/
def textLen (parts : String × List Message × Option (List Unit)) : Option ℕ := some (parts.1.utf8ByteSize + 12)

def thresholdLimits : ExecutionLimits :=
  { ExecutionScope.Sample.limits with
    budget := { ExecutionScope.Sample.limits.budget with requireApprovalAtPercent := some 80 } }

def thresholdScope : ExecutionScope := { ExecutionScope.Sample.scope with limits := thresholdLimits }

end Sample

theorem sample_hasRoom {s : ExecutionScope} (hbudget : s.limits.budget.maxTurns = none ∧
      s.limits.budget.maxCapabilitySteps = none ∧ s.limits.budget.maxConcurrentRuns = none ∧
      s.limits.budget.maxWallTimeMs = some 1000) (hcreated : s.createdAtMs = 100)
    (hops : s.modelAttempts ≤ s.limits.maxModelAttempts ∧ s.toolCalls ≤ s.limits.maxToolCalls ∧
      s.retries ≤ s.limits.maxRetries ∧ s.inflightOperations ≤ s.limits.maxInflightOperations) : s.HasRoom 102 := by
  obtain ⟨hturns, hsteps, hruns, hwall⟩ := hbudget
  obtain ⟨hattempts, htools, hretries, hinflight⟩ := hops
  refine ⟨⟨hattempts, htools, hretries, hinflight⟩, ?_, ?_, ?_, ?_⟩
  · intro m hm
    rw [hwall] at hm
    cases hm
    omega
  · intro m hm
    rw [hturns] at hm
    cases hm
  · intro m hm
    rw [hsteps] at hm
    cases hm
  · intro m hm
    rw [hruns] at hm
    cases hm

/-- The clamp gives a request all of the remaining output; with an approval threshold its reservation is refused. -/
theorem threshold_refuses :
    ExecutionScope.new "scope" "root" Sample.thresholdLimits 100 = .ok Sample.thresholdScope ∧
      Sample.call.prepareRequest Sample.textLen Sample.thresholdScope Sample.plainAgent Sample.greeting
        (fun _ => Sample.live 101) = .ok { Sample.greeting with maxTokens := some 200 } ∧
      (Sample.thresholdScope.allowance 101 >>= reservationInput Sample.textLen Sample.plainAgent Sample.greeting) = .ok 270 ∧
      (Sample.thresholdScope.admitted (Sample.call.modelAttempt "one" 270 200)).HasRoom 102 ∧
      (Sample.thresholdScope.apply (.reserve (Sample.call.modelAttempt "one" 270 200) 102)).1 =
        .error (.rejected "Shared execution token or policy allowance exhausted") ∧
      ¬ ∃ next, Sample.thresholdScope.reserve (Sample.call.modelAttempt "one" 270 200) 102 = .ok (.newlyGranted, next) := by
  have herror : (Sample.thresholdScope.apply (.reserve (Sample.call.modelAttempt "one" 270 200) 102)).1 =
      .error (.rejected "Shared execution token or policy allowance exhausted") := by decide +kernel
  refine ⟨rfl, by decide +kernel, by decide +kernel, sample_hasRoom ⟨rfl, rfl, rfl, rfl⟩ rfl (by decide +kernel), herror, ?_⟩
  rintro ⟨next, hgrant⟩
  simp only [ExecutionScope.apply, hgrant] at herror
  cases herror

/-- Without a threshold it is granted. -/
theorem greeting_granted :
    ∃ next, ExecutionScope.Sample.scope.reserve (Sample.call.modelAttempt "one" 270 200) 102 = .ok (.newlyGranted, next) := by
  have hnew : ExecutionScope.new "scope" "root" ExecutionScope.Sample.limits 100 = .ok ExecutionScope.Sample.scope := rfl
  have hword : ∀ m, ExecutionScope.Sample.limits.budget.maxTotalTokens = some m → m < 2 ^ 64 := by
    intro m hm
    cases hm
    decide
  have hprepared : Sample.call.prepareRequest Sample.textLen (run ExecutionScope.step ExecutionScope.Sample.scope [])
      Sample.plainAgent Sample.greeting (fun _ => Sample.live 101) = .ok { Sample.greeting with maxTokens := some 200 } := by
    decide +kernel
  obtain ⟨input, maxTokens, hmax, hle, -, hinput, hgranted⟩ := prepared_fits hnew hword [] hprepared
  obtain rfl : 200 = maxTokens := Option.some.inj hmax
  have hallow : ∃ allowance, ExecutionScope.Sample.scope.allowance 101 = .ok allowance ∧
      reservationInput Sample.textLen Sample.plainAgent Sample.greeting allowance = .ok 270 := by
    have h : (ExecutionScope.Sample.scope.allowance 101 >>= reservationInput Sample.textLen Sample.plainAgent Sample.greeting) =
        .ok 270 := by decide +kernel
    exact bind_eq_ok.mp h
  obtain ⟨allowance, hallow, h270⟩ := hallow
  have hsame := hinput 101 allowance hallow
  rw [reservationInput_eq rfl, h270] at hsame
  obtain rfl : 270 = input := Except.ok.inj hsame
  have hroom : (ExecutionScope.Sample.scope.admitted (Sample.call.modelAttempt "one" 270 200)).HasRoom 102 :=
    sample_hasRoom ⟨rfl, rfl, rfl, rfl⟩ rfl (by decide +kernel)
  exact (hgranted "one" 102 (by decide +kernel) (by decide +kernel) (by decide +kernel) (by decide +kernel) (by decide)
    (by decide) hroom).mpr ⟨Budget.belowApproval_of_none rfl _, by decide⟩

end AnimaCore.ModelCalls
