import AnimaCore.ExecutionLimits

/-!
# AnimaCore.ExecutionLimits.Admission — the shared budget is never over-granted

What the reservations of a scope amount to (`modelAttempts`, `toolCalls`, `retries`, `inflightOperations`) is counted
here from the table itself; `consumption_spec` says that the source's loop arrives at the same counts.

* `WithinLimits` is the invariant: an admission checks it afresh, a settlement can only retire an operation.
* `step_noPanic`: no call underflows a subtraction or unwraps a missing limit.
-/

namespace AnimaCore

open Lib

variable {s s' : ExecutionScope}

/-! ## What a scope amounts to -/

namespace ExecutionScope

/-- The recorded reservations, in the order of their identities. -/
def values (s : ExecutionScope) : List ExecutionReservation := s.reservations.toList.map (·.2)

end ExecutionScope

def isModelAttempt (r : ExecutionReservation) : Bool := decide (r.request.operation = .modelAttempt)

def isToolCall (r : ExecutionReservation) : Bool := decide (r.request.operation = .tool)

/-- The distinct logical calls of the model attempts of a list. -/
def logicalCalls (rs : List ExecutionReservation) : Finset String :=
  ((rs.filter isModelAttempt).map (·.request.logicalCallId)).toFinset

theorem countP_concat (p : ExecutionReservation → Bool) (rs : List ExecutionReservation) (r : ExecutionReservation) :
    (rs ++ [r]).countP p = rs.countP p + (p r).toNat := by
  rw [List.countP_append, List.countP_singleton]
  cases p r <;> rfl

theorem logicalCalls_card_le (rs : List ExecutionReservation) : (logicalCalls rs).card ≤ rs.countP isModelAttempt := by
  unfold logicalCalls
  rw [List.countP_eq_length_filter]
  simpa using List.toFinset_card_le ((rs.filter isModelAttempt).map (·.request.logicalCallId))

theorem logicalCalls_perm {rs rs' : List ExecutionReservation} (h : rs.Perm rs') : logicalCalls rs = logicalCalls rs' := by
  unfold logicalCalls
  exact List.toFinset_eq_of_perm _ _ ((h.filter _).map _)

theorem logicalCalls_concat (rs : List ExecutionReservation) (r : ExecutionReservation) :
    logicalCalls (rs ++ [r]) =
      if r.request.operation = .modelAttempt then insert r.request.logicalCallId (logicalCalls rs)
      else logicalCalls rs := by
  unfold logicalCalls
  by_cases h : r.request.operation = .modelAttempt <;> simp [List.filter_append, isModelAttempt, h]

namespace ExecutionScope

def modelAttempts (s : ExecutionScope) : ℕ := s.values.countP isModelAttempt

def toolCalls (s : ExecutionScope) : ℕ := s.values.countP isToolCall

def logicalModelCalls (s : ExecutionScope) : ℕ := (logicalCalls s.values).card

/-- Attempts beyond the first of their logical call. -/
def retries (s : ExecutionScope) : ℕ := s.modelAttempts - s.logicalModelCalls

def inflightOperations (s : ExecutionScope) : ℕ := s.values.countP (·.inflight)

/-- The recorded operations stay within the limits of the scope. -/
structure WithinLimits (s : ExecutionScope) : Prop where
  attempts : s.modelAttempts ≤ s.limits.maxModelAttempts
  tools : s.toolCalls ≤ s.limits.maxToolCalls
  retried : s.retries ≤ s.limits.maxRetries
  inflight : s.inflightOperations ≤ s.limits.maxInflightOperations

/-- The charged tokens are within the budget of the scope. -/
def ChargedWithinBudget (s : ExecutionScope) : Prop :=
  ∃ usage maxInput maxOutput maxTotal, s.consumption = .ok usage ∧
    s.limits.budget.maxInputTokens = some maxInput ∧ usage.chargedInputTokens ≤ maxInput ∧
    s.limits.budget.maxOutputTokens = some maxOutput ∧ usage.chargedOutputTokens ≤ maxOutput ∧
    s.limits.budget.maxTotalTokens = some maxTotal ∧ usage.chargedTotalTokens ≤ maxTotal

/-! ## The consumption loop -/

/-- What the loop has counted of the reservations it has read. -/
structure Counted (rs : List ExecutionReservation) (acc : ExecutionConsumption × Finset String) : Prop where
  attempts : acc.1.modelAttempts = rs.countP isModelAttempt
  tools : acc.1.toolCalls = rs.countP isToolCall
  inflight : acc.1.inflightOperations = rs.countP (·.inflight)
  logical : acc.2 = logicalCalls rs

theorem add_counted {rs : List ExecutionReservation} {r : ExecutionReservation}
    {acc acc' : ExecutionConsumption × Finset String} (h : Counted rs acc)
    (hadd : ExecutionConsumption.add acc r = .ok acc') : Counted (rs ++ [r]) acc' := by
  simp only [ExecutionConsumption.add, bind_eq_ok] at hadd
  obtain ⟨_, _, _, _, _, _, _, _, _, _, hout⟩ := hadd
  cases hout
  refine ⟨?_, ?_, ?_, ?_⟩
  · rw [countP_concat, ← h.attempts]
    rfl
  · rw [countP_concat, ← h.tools]
    rfl
  · rw [countP_concat, ← h.inflight]
  · rw [logicalCalls_concat, ← h.logical]

theorem loop_counted {rs : List ExecutionReservation} {acc : ExecutionConsumption × Finset String}
    (h : rs.foldlM ExecutionConsumption.add ({}, ∅) = .ok acc) : Counted rs acc := by
  refine foldlM_induction (P := Counted) h ⟨rfl, rfl, rfl, rfl⟩ ?_
  intro pre r post acc acc' _ hacc hadd
  exact add_counted hacc hadd

theorem consumption_spec {usage : ExecutionConsumption} (h : s.consumption = .ok usage) :
    s.validate = .ok () ∧ usage.modelAttempts = s.modelAttempts ∧ usage.toolCalls = s.toolCalls ∧
      usage.retries = s.retries ∧ usage.inflightOperations = s.inflightOperations := by
  simp only [consumption, bind_eq_ok] at h
  obtain ⟨_, hv, acc, hloop, _, _, hout⟩ := h
  cases hout
  obtain ⟨hattempts, htools, hinflight, hlogical⟩ := loop_counted hloop
  refine ⟨hv, hattempts, htools, ?_, hinflight⟩
  show acc.1.modelAttempts - acc.2.card = s.retries
  rw [hattempts, hlogical]
  rfl

/-! ## Admission -/

theorem evaluate_continue {b : Budget} {u : Usage} (h : b.evaluate u = .ok .continue_) :
    ∀ p ∈ b.pairs u, ∀ m, p.2 = some m → p.1 ≤ m := by
  simp only [Budget.evaluate, bind_eq_ok] at h
  obtain ⟨_, _, _, _, h⟩ := h
  intro p hp m hm
  by_contra hlt
  have hany : ((b.pairs u).any fun p => p.2.any fun m => decide (m < p.1)) = true := by
    rw [List.any_eq_true]
    exact ⟨p, hp, by simpa [hm] using hlt⟩
  rw [if_pos hany] at h
  cases h

theorem limits_validate_some {l : ExecutionLimits} (h : l.validate = .ok ()) :
    l.budget.maxWallTimeMs.isSome ∧ l.budget.maxInputTokens.isSome ∧ l.budget.maxOutputTokens.isSome ∧
      l.budget.maxTotalTokens.isSome := by
  simp only [ExecutionLimits.validate, bind_eq_ok, ensure_eq_ok] at h
  obtain ⟨_, _, _, _, _, _, _, hmax⟩ := h
  exact hmax

theorem validate_limits (h : s.validate = .ok ()) : s.limits.validate = .ok () := by
  simp only [ExecutionScope.validate, bind_eq_ok] at h
  obtain ⟨_, _, _, _, _, hl, _⟩ := h
  exact hl

theorem checkAllowance_spec {nowMs : ℕ} (h : s.checkAllowance nowMs = .ok ()) :
    s.validate = .ok () ∧ s.WithinLimits ∧ s.ChargedWithinBudget := by
  simp only [checkAllowance, bind_eq_ok, ensure_eq_ok] at h
  obtain ⟨usage, hc, _, hops, decision, hdec, hcont⟩ := h
  subst hcont
  obtain ⟨hv, hattempts, htools, hretries, hinflight⟩ := consumption_spec hc
  rw [hattempts, htools, hretries, hinflight] at hops
  refine ⟨hv, ⟨hops.1, hops.2.1, hops.2.2.1, hops.2.2.2⟩, ?_⟩
  obtain ⟨_, hin, hout, htot⟩ := limits_validate_some (validate_limits hv)
  obtain ⟨maxInput, hin⟩ := Option.isSome_iff_exists.mp hin
  obtain ⟨maxOutput, hout⟩ := Option.isSome_iff_exists.mp hout
  obtain ⟨maxTotal, htot⟩ := Option.isSome_iff_exists.mp htot
  have hpairs := evaluate_continue (toLimits_eq_ok.mp hdec)
  refine ⟨usage, maxInput, maxOutput, maxTotal, hc, hin, ?_, hout, ?_, htot, ?_⟩
  · exact hpairs (usage.chargedInputTokens, s.limits.budget.maxInputTokens) (by simp [Budget.pairs]) maxInput hin
  · exact hpairs (usage.chargedOutputTokens, s.limits.budget.maxOutputTokens) (by simp [Budget.pairs]) maxOutput hout
  · exact hpairs (usage.chargedTotalTokens, s.limits.budget.maxTotalTokens) (by simp [Budget.pairs]) maxTotal htot

def admitted (s : ExecutionScope) (request : ReservationRequest) : ExecutionScope :=
  { s with
    version := s.version + 1
    reservations := s.reservations.insert request.id { request, settlement := none, observedUsage := none } }

theorem reserve_cases {request : ReservationRequest} {nowMs : ℕ} {admission : ReservationAdmission}
    (h : s.reserve request nowMs = .ok (admission, s')) :
    s.validate = .ok () ∧ (admission = .alreadyRecorded ∧ s' = s ∨
      admission = .newlyGranted ∧ s.reservations[request.id]? = none ∧ s.createdAtMs ≤ nowMs ∧ nowMs < s.deadlineAtMs ∧
        s' = s.admitted request ∧ s'.checkAllowance nowMs = .ok ()) := by
  simp only [reserve, bind_eq_ok] at h
  obtain ⟨_, hv, _, _, h⟩ := h
  refine ⟨hv, ?_⟩
  split at h
  · simp only [bind_eq_ok] at h
    obtain ⟨_, _, hout⟩ := h
    cases hout
    exact Or.inl ⟨rfl, rfl⟩
  · next hfresh =>
    simp only [ExecutionScope.admission, bind_eq_ok, ensure_eq_ok, okOr_eq_ok, checkedAdd_eq_some] at h
    obtain ⟨next, ⟨_, htime, version, ⟨_, hversion⟩, _, hallow, hnext⟩, hout⟩ := h
    subst hversion
    cases hnext
    cases hout
    exact Or.inr ⟨rfl, hfresh, htime.1, htime.2, rfl, hallow⟩

end ExecutionScope

theorem ExecutionReservation.settle_spec {r r' : ExecutionReservation} {report : ReservationSettlement}
    (h : r.settle report = .ok r') :
    r'.request = r.request ∧ r'.observedUsage = mergeObserved r.observedUsage report.seen ∧
      (r'.inflight = true → r.inflight = true) := by
  simp only [ExecutionReservation.settle] at h
  split at h
  · next hnone =>
    cases h
    exact ⟨rfl, rfl, fun _ => by simp [inflight, hnone]⟩
  · next previous hsome =>
    simp only [bind_eq_ok] at h
    obtain ⟨outcome, _, hout⟩ := h
    cases hout
    refine ⟨rfl, rfl, fun hin => ?_⟩
    simp only [inflight, Option.all_some, Bool.not_or, Bool.and_eq_true] at hin
    simpa [inflight, hsome] using hin.2

namespace ExecutionScope

/-- The scope after a settlement that changed a reservation. -/
def settled (s : ExecutionScope) (id : String) (r : ExecutionReservation) : ExecutionScope :=
  { s with version := s.version + 1, reservations := s.reservations.insert id r }

theorem settle_cases {report : ReservationSettlement} (h : s.settle report = .ok s') :
    ∃ r r', s.reservations[report.reservationId]? = some r ∧ r.settle report = .ok r' ∧
      (s' = s ∧ r' = r ∨ s' = s.settled report.reservationId r' ∧ s'.validate = .ok ()) := by
  simp only [settle, bind_eq_ok, okOr_eq_ok] at h
  obtain ⟨_, _, r, hr, r', hr', h⟩ := h
  refine ⟨r, r', hr, hr', ?_⟩
  split_ifs at h with hsame
  · cases h
    exact Or.inl ⟨rfl, hsame.2⟩
  · simp only [bind_eq_ok, okOr_eq_ok, checkedAdd_eq_some] at h
    obtain ⟨version, ⟨_, hversion⟩, _, hv, hout⟩ := h
    subst hversion
    cases hout
    exact Or.inr ⟨rfl, hv⟩

theorem settled_values {id : String} {r : ExecutionReservation} (h : s.reservations[id]? = some r)
    (r' : ExecutionReservation) :
    ∃ rest, s.values.Perm (r :: rest) ∧ (s.settled id r').values.Perm (r' :: rest) := by
  refine ⟨(s.reservations.erase id).toList.map (·.2), ?_, ?_⟩
  · exact (Table.toList_perm_erase h).map (·.2)
  · have hnew : (s.reservations.insert id r')[id]? = some r' := by simp
    have hperm := (Table.toList_perm_erase hnew).map (·.2)
    rw [Table.erase_insert_self] at hperm
    exact hperm

theorem settled_withinLimits {id : String} {r r' : ExecutionReservation} (h : s.reservations[id]? = some r)
    (hreq : r'.request = r.request) (hin : r'.inflight = true → r.inflight = true) (hw : s.WithinLimits) :
    (s.settled id r').WithinLimits := by
  obtain ⟨rest, hold, hnew⟩ := settled_values h r'
  have hkind : ∀ p : ExecutionReservation → Bool, p r' = p r → (s.settled id r').values.countP p = s.values.countP p := by
    intro p hp
    rw [hold.countP_eq, hnew.countP_eq, List.countP_cons, List.countP_cons, hp]
  have hattempts : (s.settled id r').modelAttempts = s.modelAttempts := hkind _ (by simp [isModelAttempt, hreq])
  have htools : (s.settled id r').toolCalls = s.toolCalls := hkind _ (by simp [isToolCall, hreq])
  have hlogical : logicalCalls (s.settled id r').values = logicalCalls s.values := by
    rw [logicalCalls_perm hold, logicalCalls_perm hnew]
    by_cases hop : r.request.operation = .modelAttempt <;> simp [logicalCalls, isModelAttempt, hreq, hop]
  have hinflight : (s.settled id r').inflightOperations ≤ s.inflightOperations := by
    show (s.settled id r').values.countP _ ≤ s.values.countP _
    rw [hold.countP_eq, hnew.countP_eq, List.countP_cons, List.countP_cons]
    cases hr' : r'.inflight with
    | false => simp
    | true => simp [hin hr']
  refine ⟨hattempts.trans_le hw.attempts, htools.trans_le hw.tools, ?_, hinflight.trans hw.inflight⟩
  show (s.settled id r').modelAttempts - (logicalCalls (s.settled id r').values).card ≤ _
  rw [hattempts, hlogical]
  exact hw.retried

end ExecutionScope

def NoPanic {α : Type} (x : LimitsResult α) : Prop := x ≠ .error .panicked

namespace NoPanic

variable {α β : Type}

theorem ok (a : α) : NoPanic (.ok a) := by simp [NoPanic]

theorem bind {x : LimitsResult α} {f : α → LimitsResult β} (hx : NoPanic x) (hf : ∀ a, x = .ok a → NoPanic (f a)) :
    NoPanic (x >>= f) := bind_ne_error hx hf

theorem ensure {p : Prop} [Decidable p] {message : String} : NoPanic (Lib.ensure p (.rejected message)) := by
  simp [NoPanic]

theorem okOr {o : Option α} {message : String} : NoPanic (Lib.okOr o (.rejected message)) := by
  cases o <;> simp [NoPanic, Lib.okOr]

theorem toLimits (r : ExecResult α) : NoPanic r.toLimits := by
  cases r <;> simp [NoPanic, ExecResult.toLimits]

theorem foldlM {f : β → α → LimitsResult β} (hf : ∀ b a, NoPanic (f b a)) (l : List α) (b : β) :
    NoPanic (l.foldlM f b) := foldlM_ne_error hf l b

theorem forM {f : α → LimitsResult Unit} (hf : ∀ a, NoPanic (f a)) (l : List α) : NoPanic (l.forM f) := by
  induction l with
  | nil => exact ok ()
  | cons a l ih =>
    rw [List.forM]
    exact bind (hf a) fun _ _ => ih

end NoPanic

theorem addTokens_noPanic (total delta : ℕ) : NoPanic (addTokens total delta) := NoPanic.okOr

theorem normalizedTokens_noPanic (usage : TokenUsage) : NoPanic (normalizedTokens usage) :=
  (addTokens_noPanic _ _).bind fun _ _ => .ok _

theorem settledCharge_noPanic (r : ExecutionReservation) : NoPanic r.settledCharge := by
  unfold ExecutionReservation.settledCharge
  refine (addTokens_noPanic _ _).bind fun _ _ => ?_
  split
  · exact .ok _
  · exact normalizedTokens_noPanic _
  · exact (normalizedTokens_noPanic _).bind fun _ _ => (addTokens_noPanic _ _).bind fun _ _ => .ok _
  · exact .ok _

theorem charge_noPanic (r : ExecutionReservation) : NoPanic r.charge := by
  unfold ExecutionReservation.charge
  refine (settledCharge_noPanic r).bind fun _ _ => ?_
  split
  · exact .ok _
  · exact (normalizedTokens_noPanic _).bind fun _ _ => (addTokens_noPanic _ _).bind fun _ _ => .ok _

theorem addKnown_noPanic (known : Usage) (r : ExecutionReservation) : NoPanic (addKnown known r) := by
  unfold addKnown
  split
  · refine (normalizedTokens_noPanic _).bind fun _ _ => (addTokens_noPanic _ _).bind fun _ _ => ?_
    exact (addTokens_noPanic _ _).bind fun _ _ => (addTokens_noPanic _ _).bind fun _ _ => .ok _
  · exact .ok _

theorem add_noPanic (acc : ExecutionConsumption × Finset String) (r : ExecutionReservation) :
    NoPanic (ExecutionConsumption.add acc r) := by
  unfold ExecutionConsumption.add
  refine (addKnown_noPanic _ r).bind fun _ _ => (charge_noPanic r).bind fun _ _ => ?_
  refine (addTokens_noPanic _ _).bind fun _ _ => (addTokens_noPanic _ _).bind fun _ _ => ?_
  exact (addTokens_noPanic _ _).bind fun _ _ => .ok _

theorem request_validate_noPanic (r : ReservationRequest) : NoPanic r.validate := by
  unfold ReservationRequest.validate validateExecutionId
  refine NoPanic.ensure.bind fun _ _ => NoPanic.ensure.bind fun _ _ => NoPanic.ensure.bind fun _ _ => ?_
  exact NoPanic.ensure.bind fun _ _ => NoPanic.okOr.bind fun _ _ => .ok _

theorem validateReservation_noPanic (entry : String × ExecutionReservation) : NoPanic (validateReservation entry) := by
  unfold validateReservation
  refine (request_validate_noPanic _).bind fun _ _ => NoPanic.ensure.bind fun _ _ => ?_
  split
  · exact NoPanic.ensure
  · exact NoPanic.ensure.bind fun _ _ => NoPanic.ensure.bind fun _ _ => NoPanic.ensure

namespace ExecutionScope

theorem validate_noPanic (s : ExecutionScope) : NoPanic s.validate := by
  unfold ExecutionScope.validate
  refine NoPanic.bind NoPanic.ensure fun _ _ => NoPanic.bind NoPanic.ensure fun _ _ => ?_
  have hlimits : NoPanic s.limits.validate := by
    unfold ExecutionLimits.validate
    exact (NoPanic.toLimits _).bind fun _ _ => NoPanic.ensure
  refine hlimits.bind fun _ hl => ?_
  obtain ⟨wall, hwall⟩ := Option.isSome_iff_exists.mp (limits_validate_some hl).1
  rw [hwall]
  refine NoPanic.bind (.ok wall) fun _ _ => NoPanic.okOr.bind fun _ _ => NoPanic.ensure.bind fun _ _ => ?_
  exact NoPanic.forM validateReservation_noPanic _

theorem consumption_noPanic (s : ExecutionScope) : NoPanic s.consumption := by
  unfold consumption
  refine s.validate_noPanic.bind fun _ _ => ?_
  refine (NoPanic.foldlM add_noPanic _ _).bind fun acc hloop => ?_
  have hcounted := loop_counted hloop
  have hle : acc.2.card ≤ acc.1.modelAttempts := by
    rw [hcounted.attempts, hcounted.logical]
    exact logicalCalls_card_le _
  have hensure : Lib.ensure (acc.2.card ≤ acc.1.modelAttempts) LimitsFault.panicked = .ok () := ensure_eq_ok.mpr hle
  dsimp only
  rw [hensure]
  exact NoPanic.bind (.ok ()) fun _ _ => .ok _

theorem checkAllowance_noPanic (s : ExecutionScope) (nowMs : ℕ) : NoPanic (s.checkAllowance nowMs) := by
  unfold checkAllowance
  refine s.consumption_noPanic.bind fun _ _ => NoPanic.ensure.bind fun _ _ => ?_
  exact (NoPanic.toLimits _).bind fun _ _ => NoPanic.ensure

theorem reserve_noPanic (s : ExecutionScope) (request : ReservationRequest) (nowMs : ℕ) :
    NoPanic (s.reserve request nowMs) := by
  unfold reserve
  refine s.validate_noPanic.bind fun _ _ => (request_validate_noPanic request).bind fun _ _ => ?_
  split
  · exact NoPanic.ensure.bind fun _ _ => .ok _
  · refine NoPanic.bind ?_ fun _ _ => .ok _
    unfold ExecutionScope.admission
    refine NoPanic.ensure.bind fun _ _ => NoPanic.okOr.bind fun _ _ => ?_
    exact (checkAllowance_noPanic _ nowMs).bind fun _ _ => .ok _

theorem settle_noPanic (s : ExecutionScope) (report : ReservationSettlement) : NoPanic (s.settle report) := by
  unfold settle
  refine s.validate_noPanic.bind fun _ _ => NoPanic.okOr.bind fun r _ => NoPanic.bind ?_ fun _ _ => ?_
  · unfold ExecutionReservation.settle
    split
    · exact .ok _
    · next previous _ =>
      have hmerge : NoPanic (mergeOutcome previous.outcome report.outcome) := by
        unfold mergeOutcome
        split <;> first | exact .ok _ | (split_ifs <;> simp [NoPanic]) | simp [NoPanic]
      exact hmerge.bind fun _ _ => .ok _
  · split_ifs
    · exact .ok _
    · exact NoPanic.okOr.bind fun _ _ => (validate_noPanic _).bind fun _ _ => .ok _

/-! ## Runs -/

/-- A call that answers `NewlyGranted` for the reservation `id`. -/
def grants (id : String) (s : ExecutionScope) (call : Call) : Bool :=
  match call with
  | .reserve request _ => request.id == id && decide ((s.apply call).1 = .ok (some .newlyGranted))
  | .settle _ => false

theorem step_cases (s : ExecutionScope) (call : Call) :
    s.step call = s ∧ (s.apply call).1 ≠ .ok (some .newlyGranted) ∨
      (∃ request nowMs, call = .reserve request nowMs ∧ (s.apply call).1 = .ok (some .newlyGranted) ∧
        s.reservations[request.id]? = none ∧ s.createdAtMs ≤ nowMs ∧ nowMs < s.deadlineAtMs ∧
        s.step call = s.admitted request ∧ (s.step call).checkAllowance nowMs = .ok ()) ∨
      (∃ report r r', call = .settle report ∧ (s.apply call).1 = .ok none ∧
        s.reservations[report.reservationId]? = some r ∧ r.settle report = .ok r' ∧
        s.step call = s.settled report.reservationId r' ∧ (s.step call).validate = .ok ()) := by
  unfold step apply
  cases call with
  | reserve request nowMs =>
    dsimp only
    cases h : s.reserve request nowMs with
    | error fault => exact Or.inl ⟨rfl, by simp⟩
    | ok out =>
      obtain ⟨admission, next⟩ := out
      obtain ⟨_, ⟨ha, hn⟩ | ⟨ha, hfresh, hfrom, huntil, hn, hallow⟩⟩ := reserve_cases h
      · exact Or.inl ⟨hn, by simp [ha]⟩
      · exact Or.inr (Or.inl ⟨request, nowMs, rfl, by simp [ha], hfresh, hfrom, huntil, hn, hallow⟩)
  | settle report =>
    dsimp only
    cases h : s.settle report with
    | error fault => exact Or.inl ⟨rfl, by simp⟩
    | ok next =>
      obtain ⟨r, r', hr, hset, ⟨hn, _⟩ | ⟨hn, hv⟩⟩ := settle_cases h
      · exact Or.inl ⟨hn, by simp⟩
      · exact Or.inr (Or.inr ⟨report, r, r', rfl, rfl, hr, hset, hn, hv⟩)

theorem apply_error {call : Call} {fault : LimitsFault} (h : (s.apply call).1 = .error fault) :
    fault ≠ .panicked ∧ (s.apply call).2 = s := by
  cases call with
  | reserve request nowMs =>
    simp only [apply] at h ⊢
    cases hr : s.reserve request nowMs with
    | ok out =>
      rw [hr] at h
      cases h
    | error fault' =>
      rw [hr] at h
      cases h
      refine ⟨?_, rfl⟩
      rintro rfl
      exact s.reserve_noPanic request nowMs hr
  | settle report =>
    simp only [apply] at h ⊢
    cases hr : s.settle report with
    | ok next =>
      rw [hr] at h
      cases h
    | error fault' =>
      rw [hr] at h
      cases h
      refine ⟨?_, rfl⟩
      rintro rfl
      exact s.settle_noPanic report hr

theorem step_frame (s : ExecutionScope) (call : Call) :
    (s.step call).limits = s.limits ∧ (s.step call).createdAtMs = s.createdAtMs ∧
      (s.step call).deadlineAtMs = s.deadlineAtMs := by
  rcases step_cases s call with ⟨h, _⟩ | ⟨_, _, _, _, _, _, _, h, _⟩ | ⟨_, _, _, _, _, _, _, h, _⟩ <;>
  · rw [h]
    exact ⟨rfl, rfl, rfl⟩

theorem step_withinLimits {call : Call} (hw : s.WithinLimits) : (s.step call).WithinLimits := by
  rcases step_cases s call with ⟨h, _⟩ | ⟨_, nowMs, _, _, _, _, _, _, hallow⟩ | ⟨_, r, r', _, _, hr, hset, h, _⟩
  · rw [h]
    exact hw
  · exact (checkAllowance_spec hallow).2.1
  · obtain ⟨hreq, _, hin⟩ := ExecutionReservation.settle_spec hset
    rw [h]
    exact settled_withinLimits hr hreq hin hw

theorem step_mem {call : Call} {id : String} (h : id ∈ s.reservations) : id ∈ (s.step call).reservations := by
  rcases step_cases s call with ⟨hs, _⟩ | ⟨request, _, _, _, _, _, _, hs, _⟩ | ⟨report, _, _, _, _, _, _, hs, _⟩ <;> rw [hs]
  · exact h
  · exact Std.ExtTreeMap.mem_insert.mpr (Or.inr h)
  · exact Std.ExtTreeMap.mem_insert.mpr (Or.inr h)

theorem grants_spec {call : Call} {id : String} (h : grants id s call = true) :
    id ∉ s.reservations ∧ id ∈ (s.step call).reservations := by
  cases call with
  | settle report => cases h
  | reserve request nowMs =>
    simp only [grants, Bool.and_eq_true, beq_iff_eq, decide_eq_true_eq] at h
    obtain ⟨rfl, hreply⟩ := h
    rcases step_cases s (.reserve request nowMs) with ⟨_, hne⟩ | ⟨request', _, hcall, _, hfresh, _, _, hs, _⟩ | ⟨_, _, _, hcall, _⟩
    · exact absurd hreply hne
    · cases hcall
      refine ⟨Table.not_mem_iff_getElem?_eq_none.mpr hfresh, ?_⟩
      rw [hs]
      exact Std.ExtTreeMap.mem_insert_self
    · cases hcall

theorem grants_count_le (s₀ : ExecutionScope) (id : String) (calls : List Call) :
    countAlong step (grants id) s₀ calls ≤ (decide (id ∈ (run step s₀ calls).reservations)).toNat := by
  refine run_induction step s₀
    (P := fun l s => countAlong step (grants id) s₀ l ≤ (decide (id ∈ s.reservations)).toNat) calls
    (Nat.zero_le _) ?_
  intro l call hl
  rw [countAlong_concat]
  set s := run step s₀ l with hs
  cases hg : grants id s call with
  | true =>
    obtain ⟨hold, hnew⟩ := grants_spec hg
    simp only [hold, decide_false, Bool.toNat_false] at hl
    simp [hnew]
    omega
  | false =>
    by_cases hmem : id ∈ s.reservations
    · simpa [step_mem hmem, hmem] using hl
    · simp only [hmem, decide_false, Bool.toNat_false] at hl
      simp only [Bool.toNat_false]
      omega

theorem new_spec {id rootRunId : String} {limits : ExecutionLimits} {nowMs : ℕ} {s₀ : ExecutionScope}
    (h : ExecutionScope.new id rootRunId limits nowMs = .ok s₀) :
    s₀.limits = limits ∧ s₀.createdAtMs = nowMs ∧ s₀.reservations = ∅ ∧ s₀.validate = .ok () := by
  simp only [ExecutionScope.new, bind_eq_ok] at h
  obtain ⟨_, _, _, _, _, _, _, hv, hout⟩ := h
  cases hout
  exact ⟨rfl, rfl, rfl, hv⟩

theorem empty_withinLimits (h : s.reservations = ∅) : s.WithinLimits := by
  have hvalues : s.values = [] := by simp [values, h]
  constructor <;> simp [modelAttempts, toolCalls, retries, inflightOperations, hvalues]

/-- **The shared budget is never over-granted.**  After any calls on a new scope the recorded operations are within its
limits and no reservation was granted twice; of the next call, a grant falls in the time window and leaves the charged
tokens within the budget, and an error leaves the scope unchanged and is never a panic. -/
theorem never_overgranted {id rootRunId : String} {limits : ExecutionLimits} {nowMs : ℕ} {s₀ : ExecutionScope}
    (h : ExecutionScope.new id rootRunId limits nowMs = .ok s₀) (calls : List Call) (call : Call) :
    let s := run step s₀ calls
    s.limits = limits ∧ s.createdAtMs = nowMs ∧ s.deadlineAtMs = s₀.deadlineAtMs ∧ s.WithinLimits ∧
      s.logicalModelCalls ≤ s.modelAttempts ∧
      (∀ id, countAlong step (grants id) s₀ calls ≤ 1) ∧
      (∀ fault, (s.apply call).1 = .error fault → fault ≠ .panicked ∧ (s.apply call).2 = s) ∧
      ((s.apply call).1 = .ok (some .newlyGranted) → ∃ request now, call = .reserve request now ∧
        s.createdAtMs ≤ now ∧ now < s.deadlineAtMs ∧ (s.apply call).2.ChargedWithinBudget) := by
  intro s
  obtain ⟨hlimits₀, hcreated₀, hempty, _⟩ := new_spec h
  have hrun : s.limits = limits ∧ s.createdAtMs = nowMs ∧ s.deadlineAtMs = s₀.deadlineAtMs ∧ s.WithinLimits := by
    refine run_induction step s₀ (P := fun _ s => s.limits = limits ∧ s.createdAtMs = nowMs ∧
      s.deadlineAtMs = s₀.deadlineAtMs ∧ s.WithinLimits) calls
      ⟨hlimits₀, hcreated₀, rfl, empty_withinLimits hempty⟩ ?_
    rintro l c ⟨hl, hc, hd, hw⟩
    obtain ⟨fl, fc, fd⟩ := step_frame (run step s₀ l) c
    exact ⟨fl.trans hl, fc.trans hc, fd.trans hd, step_withinLimits hw⟩
  obtain ⟨hl, hc, hd, hw⟩ := hrun
  refine ⟨hl, hc, hd, hw, logicalCalls_card_le _, ?_, ?_, ?_⟩
  · intro rid
    exact (grants_count_le s₀ rid calls).trans (Bool.toNat_le _)
  · exact fun fault hfault => apply_error hfault
  · intro hgrant
    rcases step_cases s call with ⟨_, hne⟩ | ⟨request, now, hcall, _, _, hfrom, huntil, _, hallow⟩ | ⟨_, _, _, _, hok, _⟩
    · exact absurd hgrant hne
    · exact ⟨request, now, hcall, hfrom, huntil, (checkAllowance_spec hallow).2.2⟩
    · rw [hgrant] at hok
      cases hok

namespace Sample

/-- Three model attempts, two of them retries, and two operations at a time. -/
def limits : ExecutionLimits :=
  { budget := { maxWallTimeMs := some 1000, maxInputTokens := some 400, maxOutputTokens := some 200
                maxTotalTokens := some 600 }
    maxModelAttempts := 3, maxToolCalls := 1, maxRetries := 2, maxInflightOperations := 2 }

def scope : ExecutionScope :=
  { id := "scope", rootRunId := "root", limits, createdAtMs := 100, deadlineAtMs := 1100, reservations := ∅
    version := 0 }

def attempt (id : String) : ReservationRequest :=
  { id, runId := "root", logicalCallId := "call", operation := .modelAttempt, inputTokens := 100, outputTokens := 50 }

end Sample

/-- The second of two attempts of one logical call is granted within the budget. -/
theorem sample_grant_within_budget :
    ExecutionScope.new "scope" "root" Sample.limits 100 = .ok Sample.scope ∧
      ((run step Sample.scope [.reserve (Sample.attempt "one") 101]).apply (.reserve (Sample.attempt "two") 102)).1 =
        .ok (some .newlyGranted) ∧
      ((run step Sample.scope [.reserve (Sample.attempt "one") 101]).apply
        (.reserve (Sample.attempt "two") 102)).2.ChargedWithinBudget := by
  have hnew : ExecutionScope.new "scope" "root" Sample.limits 100 = .ok Sample.scope := rfl
  have hgrant : ((run step Sample.scope [.reserve (Sample.attempt "one") 101]).apply
      (.reserve (Sample.attempt "two") 102)).1 = .ok (some .newlyGranted) := by decide +kernel
  refine ⟨hnew, hgrant, ?_⟩
  obtain ⟨_, _, _, _, _, _, _, hbudget⟩ := never_overgranted hnew [.reserve (Sample.attempt "one") 101]
    (.reserve (Sample.attempt "two") 102)
  obtain ⟨_, _, _, _, _, hcharged⟩ := hbudget hgrant
  exact hcharged

end ExecutionScope

end AnimaCore
