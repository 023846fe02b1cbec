import AnimaCore.ExecutionLimits.Admission
import AnimaCore.Lib.Absorb

/-!
# AnimaCore.ExecutionLimits.Settlement — reports in any order

Reports on one reservation come from a stream, a final answer, a dropped permit and a recovery, in no fixed order and
some of them more than once.

* `KeptBy` is what every later state of a reservation keeps of an earlier one: what was seen, and that it was retired.
-/

namespace AnimaCore

open Lib

/-! ## Joins -/

theorem mergeObserved_right_comm (a b c : Option TokenUsage) :
    mergeObserved (mergeObserved a b) c = mergeObserved (mergeObserved a c) b := by
  cases a <;> cases b <;> cases c <;> simp [mergeObserved, max_comm, max_left_comm]

theorem mergeObserved_idem (a b : Option TokenUsage) : mergeObserved (mergeObserved a b) b = mergeObserved a b := by
  cases a <;> cases b <;> simp [mergeObserved]

/-- The recorded outcome after a report that does not conflict with it. -/
def joinOutcome : Option SettlementOutcome → SettlementOutcome → SettlementOutcome
  | none, new => new
  | some (.known old), _ => .known old
  | some (.unknown old), .unknown new => .unknown (mergeObserved old new)
  | some _, new => new

/-- The recorded outcome agrees with reports that know the usage `u`. -/
def AgreesWith (u : TokenUsage) (r : ExecutionReservation) : Prop :=
  r.outcome ≠ some .provenNeverSent ∧ ∀ v, r.outcome = some (.known v) → v = u

/-- A report on the reservation `rid` that is not a proof of nothing sent, and whose usage, if known, is `u`. -/
def ReportsOn (rid : String) (u : TokenUsage) (report : ReservationSettlement) : Prop :=
  report.reservationId = rid ∧ report.outcome ≠ .provenNeverSent ∧ ∀ v, report.outcome = .known v → v = u

/-- A settled reservation whose operation has ended. -/
def ExecutionReservation.retired (r : ExecutionReservation) : Bool := r.settlement.any (·.physicalRetired)

def ExecutionReservation.joined (r : ExecutionReservation) (report : ReservationSettlement) : ExecutionReservation :=
  { request := r.request
    settlement := some
      { reservationId := report.reservationId, outcome := joinOutcome r.outcome report.outcome
        physicalRetired := report.physicalRetired || r.retired
        observedUsage := mergeObserved r.observedUsage report.seen }
    observedUsage := mergeObserved r.observedUsage report.seen }

variable {rid : String} {u : TokenUsage} {r : ExecutionReservation} {report p q : ReservationSettlement}

theorem settle_joined (hr : AgreesWith u r) (hp : ReportsOn rid u report) : r.settle report = .ok (r.joined report) := by
  obtain ⟨_, hnever, hknown⟩ := hp
  unfold ExecutionReservation.settle ExecutionReservation.joined
  cases hs : r.settlement with
  | none => simp [ExecutionReservation.outcome, ExecutionReservation.retired, hs, joinOutcome]; rfl
  | some previous =>
    have hmerge : mergeOutcome previous.outcome report.outcome = .ok (joinOutcome r.outcome report.outcome) := by
      have hold : r.outcome = some previous.outcome := by simp [ExecutionReservation.outcome, hs]
      obtain ⟨hsent, hsame⟩ := hr
      rw [hold] at hsent hsame ⊢
      cases ho : previous.outcome with
      | provenNeverSent => exact absurd (by rw [ho]) hsent
      | unknown old =>
        cases hn : report.outcome with
        | provenNeverSent => exact absurd hn hnever
        | unknown new => rfl
        | known new => rfl
      | known old =>
        have hu : old = u := hsame old (by rw [ho])
        cases hn : report.outcome with
        | provenNeverSent => exact absurd hn hnever
        | unknown new => rfl
        | known new =>
          have hu' : new = u := hknown new hn
          simp [mergeOutcome, joinOutcome, hu, hu']
    simp only [hmerge, ExecutionReservation.retired, hs, Option.any_some]
    rfl

theorem joinOutcome_agrees (hr : AgreesWith u r) (hp : ReportsOn rid u report) :
    joinOutcome r.outcome report.outcome ≠ .provenNeverSent ∧
      ∀ v, joinOutcome r.outcome report.outcome = .known v → v = u := by
  obtain ⟨hsent, hsame⟩ := hr
  obtain ⟨_, hnever, hknown⟩ := hp
  cases ho : r.outcome with
  | none => exact ⟨hnever, hknown⟩
  | some old =>
    cases old with
    | provenNeverSent => exact absurd ho hsent
    | known v =>
      refine ⟨by simp [joinOutcome], fun w hw => ?_⟩
      cases hw
      exact hsame v ho
    | unknown old =>
      cases hn : report.outcome with
      | provenNeverSent => exact absurd hn hnever
      | known v =>
        refine ⟨by simp [joinOutcome], fun w hw => ?_⟩
        cases hw
        exact hknown v hn
      | unknown new => simp [joinOutcome]

theorem joinOutcome_comm (hr : AgreesWith u r) (hp : ReportsOn rid u p) (hq : ReportsOn rid u q) :
    joinOutcome (some (joinOutcome r.outcome p.outcome)) q.outcome =
      joinOutcome (some (joinOutcome r.outcome q.outcome)) p.outcome := by
  obtain ⟨hsent, _⟩ := hr
  obtain ⟨_, hpnever, hpknown⟩ := hp
  obtain ⟨_, hqnever, hqknown⟩ := hq
  cases ho : r.outcome with
  | none =>
    cases hpo : p.outcome with
    | provenNeverSent => exact absurd hpo hpnever
    | known v =>
      cases hqo : q.outcome with
      | provenNeverSent => exact absurd hqo hqnever
      | known w => simp [joinOutcome, hpknown v hpo, hqknown w hqo]
      | unknown w => rfl
    | unknown v =>
      cases hqo : q.outcome with
      | provenNeverSent => exact absurd hqo hqnever
      | known w => rfl
      | unknown w => cases v <;> cases w <;> simp [joinOutcome, mergeObserved, max_comm]
  | some old =>
    cases old with
    | provenNeverSent => exact absurd ho hsent
    | known v => rfl
    | unknown old =>
      cases hpo : p.outcome with
      | provenNeverSent => exact absurd hpo hpnever
      | known v =>
        cases hqo : q.outcome with
        | provenNeverSent => exact absurd hqo hqnever
        | known w => simp [joinOutcome, hpknown v hpo, hqknown w hqo]
        | unknown w => rfl
      | unknown v =>
        cases hqo : q.outcome with
        | provenNeverSent => exact absurd hqo hqnever
        | known w => rfl
        | unknown w => simp only [joinOutcome, mergeObserved_right_comm]

theorem joinOutcome_idem (hr : AgreesWith u r) (hp : ReportsOn rid u p) :
    joinOutcome (some (joinOutcome r.outcome p.outcome)) p.outcome = joinOutcome r.outcome p.outcome := by
  obtain ⟨hsent, _⟩ := hr
  obtain ⟨_, hnever, _⟩ := hp
  cases ho : r.outcome with
  | none =>
    cases hpo : p.outcome with
    | provenNeverSent => exact absurd hpo hnever
    | known v => rfl
    | unknown v => cases v <;> simp [joinOutcome, mergeObserved]
  | some old =>
    cases old with
    | provenNeverSent => exact absurd ho hsent
    | known v => rfl
    | unknown old =>
      cases hpo : p.outcome with
      | provenNeverSent => exact absurd hpo hnever
      | known v => rfl
      | unknown v => simp only [joinOutcome, mergeObserved_idem]

theorem absorbing (rid : String) (u : TokenUsage) :
    Absorbing ExecutionReservation.joined (AgreesWith u) (ReportsOn rid u) where
  keeps r report hr hp := by
    obtain ⟨hsent, hsame⟩ := joinOutcome_agrees hr hp
    refine ⟨fun h => hsent (Option.some.inj h), fun v h => hsame v (Option.some.inj h)⟩
  comm r p q hr hp hq := by
    have hout := joinOutcome_comm hr hp hq
    simp only [ExecutionReservation.joined, ExecutionReservation.outcome, ExecutionReservation.retired, Option.map_some,
      Option.any_some] at hout ⊢
    rw [hp.1, hq.1, mergeObserved_right_comm, hout, Bool.or_left_comm]
  idem r p hr hp := by
    have hout := joinOutcome_idem hr hp
    simp only [ExecutionReservation.joined, ExecutionReservation.outcome, ExecutionReservation.retired, Option.map_some,
      Option.any_some] at hout ⊢
    rw [mergeObserved_idem, hout, ← Bool.or_assoc, Bool.or_self]

theorem foldl_joined_request (reports : List ReservationSettlement) (r : ExecutionReservation) :
    (reports.foldl ExecutionReservation.joined r).request = r.request := by
  induction reports generalizing r with
  | nil => rfl
  | cons p reports ih => exact ih (r.joined p)

/-! ## Reports on a scope -/

namespace ExecutionScope

variable {s s' t : ExecutionScope}

theorem validate_iff : s.validate = .ok () ↔
    validateExecutionId s.id = .ok () ∧ validateExecutionId s.rootRunId = .ok () ∧ s.limits.validate = .ok () ∧
      (∃ wall, s.limits.budget.maxWallTimeMs = some wall ∧ s.createdAtMs + wall < 2 ^ 64 ∧
        s.createdAtMs ≤ s.deadlineAtMs ∧ s.deadlineAtMs ≤ s.createdAtMs + wall) ∧
      s.reservations.size ≤ maxExecutionReservations ∧
      ∀ id r, s.reservations[id]? = some r → validateReservation (id, r) = .ok () := by
  simp only [ExecutionScope.validate, bind_eq_ok, okOr_eq_ok, checkedAdd_eq_some, ensure_eq_ok, forM_eq_ok]
  constructor
  · rintro ⟨_, hid, _, hroot, _, hl, wall, hwall, latest, ⟨hlt, rfl⟩, _, ⟨h1, h2, h3⟩, hall⟩
    refine ⟨hid, hroot, hl, ⟨wall, hwall, hlt, h1, h2⟩, h3, ?_⟩
    intro id r hr
    exact hall (id, r) (Table.mem_toList.mpr hr)
  · rintro ⟨hid, hroot, hl, ⟨wall, hwall, hlt, h1, h2⟩, h3, hall⟩
    refine ⟨(), hid, (), hroot, (), hl, wall, hwall, _, ⟨hlt, rfl⟩, (), ⟨h1, h2, h3⟩, ?_⟩
    rintro ⟨id, r⟩ hm
    exact hall id r (Table.mem_toList.mp hm)

theorem settled_validate {r r' : ExecutionReservation} {st : ReservationSettlement} (hv : s.validate = .ok ())
    (hr : s.reservations[rid]? = some r) (hop : r.request.operation = .modelAttempt) (hreq : r'.request = r.request)
    (hst : r'.settlement = some st) (hid : st.reservationId = rid) : (s.settled rid r').validate = .ok () := by
  obtain ⟨h1, h2, h3, h4, hsize, hall⟩ := validate_iff.mp hv
  refine validate_iff.mpr ⟨h1, h2, h3, h4, ?_, ?_⟩
  · have hmem : rid ∈ s.reservations := Table.mem_of_getElem? hr
    show (s.reservations.insert rid r').size ≤ _
    rw [Std.ExtTreeMap.size_insert, if_pos (Std.ExtTreeMap.mem_iff_contains.mp hmem)]
    exact hsize
  · intro id r₁ hr₁
    have hlook : (s.reservations.insert rid r')[id]? = some r₁ := hr₁
    rw [Table.getElem?_insert_eq] at hlook
    split_ifs at hlook with heq
    · cases hlook
      subst heq
      have hold := hall rid r hr
      simp only [validateReservation, bind_eq_ok, ensure_eq_ok] at hold ⊢
      obtain ⟨_, hvalid, _, hname, _⟩ := hold
      rw [hreq, hst]
      refine ⟨(), hvalid, (), hname, ?_⟩
      simp [hid, hop]
    · exact hall id r₁ hlook

theorem settle_accepts (hv : s.validate = .ok ()) (hr : s.reservations[rid]? = some r)
    (hop : r.request.operation = .modelAttempt) (ha : AgreesWith u r) (hp : ReportsOn rid u report)
    (hver : s.version + 1 < 2 ^ 64) :
    ∃ s', s.settle report = .ok s' ∧ s'.validate = .ok () ∧
      s'.reservations = s.reservations.insert rid (r.joined report) ∧ s'.version ≤ s.version + 1 ∧
      s' = { s with version := s'.version, reservations := s'.reservations } := by
  have hget : s.reservations[report.reservationId]? = some r := by rw [hp.1]; exact hr
  have hjoin := settle_joined ha hp
  by_cases hsame : r.settlement ≠ none ∧ r.joined report = r
  · refine ⟨s, ?_, hv, ?_, Nat.le_succ _, rfl⟩
    · simp only [settle, bind_eq_ok, okOr_eq_ok]
      refine ⟨(), hv, r, hget, r.joined report, hjoin, ?_⟩
      rw [if_pos hsame]
      rfl
    · rw [hsame.2]
      exact (Table.insert_self_eq hr).symm
  · have hvalid : (s.settled rid (r.joined report)).validate = .ok () := settled_validate hv hr hop rfl rfl hp.1
    refine ⟨s.settled rid (r.joined report), ?_, hvalid, rfl, le_rfl, rfl⟩
    simp only [settle, bind_eq_ok, okOr_eq_ok]
    refine ⟨(), hv, r, hget, r.joined report, hjoin, ?_⟩
    rw [if_neg hsame]
    simp only [bind_eq_ok, okOr_eq_ok, checkedAdd_eq_some]
    refine ⟨s.version + 1, ⟨hver, rfl⟩, (), ?_, ?_⟩
    · rw [hp.1]
      exact hvalid
    · rw [hp.1]
      rfl

theorem settle_all_accepts (hv : s.validate = .ok ()) (hr : s.reservations[rid]? = some r)
    (hop : r.request.operation = .modelAttempt) (ha : AgreesWith u r) {reports : List ReservationSettlement}
    (hp : ∀ p ∈ reports, ReportsOn rid u p) (hver : s.version + reports.length < 2 ^ 64) :
    ∃ t, reports.foldlM settle s = .ok t ∧ t.validate = .ok () ∧
      t.reservations = s.reservations.insert rid (reports.foldl ExecutionReservation.joined r) ∧
      t = { s with version := t.version, reservations := t.reservations } := by
  have hloop := foldlM_total (ε := LimitsFault) (f := settle) (l := reports) (b := s)
    (P := fun pre t => t.validate = .ok () ∧
      t.reservations = s.reservations.insert rid (pre.foldl ExecutionReservation.joined r) ∧
      t.version ≤ s.version + pre.length ∧ t = { s with version := t.version, reservations := t.reservations })
    ⟨hv, (Table.insert_self_eq hr).symm, le_rfl, rfl⟩ ?_
  · obtain ⟨t, ht, hval, hres, _, hrest⟩ := hloop
    exact ⟨t, ht, hval, hres, hrest⟩
  · rintro pre report post t hsplit ⟨hval, hres, hle, hrest⟩
    have hpre : ∀ p ∈ pre, ReportsOn rid u p := fun p hm => hp p (by simp [hsplit, hm])
    have hreport : ReportsOn rid u report := hp report (by simp [hsplit])
    have hlen : pre.length + 1 ≤ reports.length := by simp [hsplit]
    have hget : t.reservations[rid]? = some (pre.foldl ExecutionReservation.joined r) := by simp [hres]
    have hagree : AgreesWith u (pre.foldl ExecutionReservation.joined r) := (absorbing rid u).foldl_keeps ha hpre
    have hopt : (pre.foldl ExecutionReservation.joined r).request.operation = .modelAttempt := by
      rw [foldl_joined_request]
      exact hop
    obtain ⟨t', ht', hval', hres', hver', hrest'⟩ := settle_accepts hval hget hopt hagree hreport (by omega)
    refine ⟨t', ht', hval', ?_, ?_, ?_⟩
    · rw [hres', hres, List.foldl_append]
      exact Table.ext_getElem? fun a => by simp only [Table.getElem?_insert_eq]; split_ifs <;> rfl
    · simp only [List.length_append, List.length_singleton]
      omega
    · rw [hrest', hrest]

end ExecutionScope

/-- No field of `v` exceeds that of `w`. -/
structure TokenUsage.Below (v w : TokenUsage) : Prop where
  prompt : v.promptTokens ≤ w.promptTokens
  completion : v.completionTokens ≤ w.completionTokens
  total : v.totalTokens ≤ w.totalTokens
  cached : v.cachedPromptTokens ≤ w.cachedPromptTokens
  reasoning : v.reasoningTokens ≤ w.reasoningTokens

/-- The usage `v` has been observed. -/
def Observed (v : TokenUsage) (o : Option TokenUsage) : Prop := ∃ w, o = some w ∧ v.Below w

theorem Observed.merge_left {v : TokenUsage} {a : Option TokenUsage} (h : Observed v a) (b : Option TokenUsage) :
    Observed v (mergeObserved a b) := by
  obtain ⟨w, rfl, h1, h2, h3, h4, h5⟩ := h
  cases b with
  | none => exact ⟨w, rfl, h1, h2, h3, h4, h5⟩
  | some b => exact ⟨_, rfl, le_max_of_le_left h1, le_max_of_le_left h2, le_max_of_le_left h3, le_max_of_le_left h4,
      le_max_of_le_left h5⟩

theorem Observed.merge_right {v : TokenUsage} {b : Option TokenUsage} (h : Observed v b) (a : Option TokenUsage) :
    Observed v (mergeObserved a b) := by
  obtain ⟨w, rfl, h1, h2, h3, h4, h5⟩ := h
  cases a with
  | none => exact ⟨w, rfl, h1, h2, h3, h4, h5⟩
  | some a => exact ⟨_, rfl, le_max_of_le_right h1, le_max_of_le_right h2, le_max_of_le_right h3,
      le_max_of_le_right h4, le_max_of_le_right h5⟩

/-- A usage that the report carries, in its outcome or beside it. -/
def ReservationSettlement.Saw (report : ReservationSettlement) (v : TokenUsage) : Prop :=
  report.observedUsage = some v ∨ report.outcome.usage = some v

theorem Observed.of_saw {v : TokenUsage} (h : report.Saw v) : Observed v report.seen := by
  have hself : Observed v (some v) := ⟨v, rfl, le_rfl, le_rfl, le_rfl, le_rfl, le_rfl⟩
  unfold ReservationSettlement.seen
  rcases h with h | h
  · rw [h]
    exact hself.merge_left _
  · rw [h]
    exact hself.merge_right _

/-- What every later state of a reservation keeps of an earlier one. -/
structure KeptBy (r r' : ExecutionReservation) : Prop where
  observed : ∀ v, Observed v r.observedUsage → Observed v r'.observedUsage
  retired : r.inflight = false → r'.inflight = false

theorem KeptBy.refl (r : ExecutionReservation) : KeptBy r r := ⟨fun _ h => h, fun h => h⟩

theorem KeptBy.trans {r₁ r₂ r₃ : ExecutionReservation} (h : KeptBy r₁ r₂) (h' : KeptBy r₂ r₃) : KeptBy r₁ r₃ :=
  ⟨fun v hv => h'.observed v (h.observed v hv), fun hr => h'.retired (h.retired hr)⟩

theorem KeptBy.of_settle {r r' : ExecutionReservation} (h : r.settle report = .ok r') : KeptBy r r' := by
  obtain ⟨_, hobs, hin⟩ := ExecutionReservation.settle_spec h
  refine ⟨fun v hv => ?_, fun hr => ?_⟩
  · rw [hobs]
    exact hv.merge_left _
  · cases hr' : r'.inflight with
    | false => rfl
    | true =>
      rw [hin hr'] at hr
      cases hr

theorem charge_covers {v : TokenUsage} {c : Charge} (hobs : Observed v r.observedUsage) (h : r.charge = .ok c) :
    v.promptTokens ≤ c.input ∧ v.cachedPromptTokens ≤ c.input ∧ v.completionTokens ≤ c.output ∧
      v.reasoningTokens ≤ c.output ∧ v.totalTokens ≤ c.total := by
  obtain ⟨w, hw, hb⟩ := hobs
  simp only [ExecutionReservation.charge, hw, normalizedTokens, addTokens, bind_eq_ok, okOr_eq_ok, checkedAdd_eq_some] at h
  obtain ⟨base, _, seen, ⟨_, _, hseen⟩, _, _, hout⟩ := h
  cases hseen
  cases hout
  obtain ⟨h1, h2, h3, h4, h5⟩ := hb
  dsimp only
  omega

namespace ExecutionScope

variable {s : ExecutionScope}

theorem consumption_covers {usage : ExecutionConsumption} (h : s.consumption = .ok usage)
    (hr : s.reservations[rid]? = some r) :
    ∃ c, r.charge = .ok c ∧ c.input ≤ usage.chargedInputTokens ∧ c.output ≤ usage.chargedOutputTokens ∧
      c.total ≤ usage.chargedTotalTokens := by
  simp only [consumption, bind_eq_ok] at h
  obtain ⟨_, _, acc, hloop, _, _, hout⟩ := h
  cases hout
  have hmem : r ∈ s.reservations.toList.map (·.2) := List.mem_map.mpr ⟨(rid, r), Table.mem_toList.mpr hr, rfl⟩
  have hall : ∀ r ∈ s.reservations.toList.map (·.2), ∃ c, r.charge = .ok c ∧ c.input ≤ acc.1.chargedInputTokens ∧
      c.output ≤ acc.1.chargedOutputTokens ∧ c.total ≤ acc.1.chargedTotalTokens := by
    refine foldlM_induction (P := fun pre (acc : ExecutionConsumption × Finset String) =>
      ∀ r ∈ pre, ∃ c, r.charge = .ok c ∧ c.input ≤ acc.1.chargedInputTokens ∧
        c.output ≤ acc.1.chargedOutputTokens ∧ c.total ≤ acc.1.chargedTotalTokens) hloop (by simp) ?_
    intro pre r post acc acc' _ hpre hadd r' hm
    simp only [ExecutionConsumption.add, addTokens, bind_eq_ok, okOr_eq_ok, checkedAdd_eq_some] at hadd
    obtain ⟨_, _, c, hc, _, ⟨_, rfl⟩, _, ⟨_, rfl⟩, _, ⟨_, rfl⟩, hout⟩ := hadd
    cases hout
    rcases List.mem_append.mp hm with hm | hm
    · obtain ⟨c', hc', h1, h2, h3⟩ := hpre r' hm
      exact ⟨c', hc', by dsimp only; omega, by dsimp only; omega, by dsimp only; omega⟩
    · rw [List.mem_singleton.mp hm]
      exact ⟨c, hc, by simp, by simp, by simp⟩
  exact hall r hmem

theorem step_keptBy (call : Call) (hr : s.reservations[rid]? = some r) :
    ∃ r', (s.step call).reservations[rid]? = some r' ∧ KeptBy r r' := by
  rcases step_cases s call with ⟨h, _⟩ | ⟨request, _, _, _, hfresh, _, _, h, _⟩ | ⟨p, r₀, r', _, _, hr₀, hset, h, _⟩
  · rw [h]
    exact ⟨r, hr, .refl r⟩
  · -- the new reservation has another identity
    have hne : request.id ≠ rid := by
      rintro rfl
      rw [hfresh] at hr
      cases hr
    rw [h]
    refine ⟨r, ?_, .refl r⟩
    show (s.reservations.insert request.id _)[rid]? = some r
    rw [Table.getElem?_insert_eq, if_neg hne]
    exact hr
  · rw [h]
    show ∃ r'', (s.reservations.insert p.reservationId r')[rid]? = some r'' ∧ _
    rw [Table.getElem?_insert_eq]
    by_cases hid : p.reservationId = rid
    · rw [if_pos hid]
      rw [hid, hr] at hr₀
      cases hr₀
      exact ⟨r', rfl, .of_settle hset⟩
    · rw [if_neg hid]
      exact ⟨r, hr, .refl r⟩

theorem run_keptBy (hr : s.reservations[rid]? = some r) (calls : List Call) :
    ∃ r', (run step s calls).reservations[rid]? = some r' ∧ KeptBy r r' := by
  refine run_induction step s (P := fun _ t => ∃ r', t.reservations[rid]? = some r' ∧ KeptBy r r') calls
    ⟨r, hr, .refl r⟩ ?_
  rintro l call ⟨r', hr', hon⟩
  obtain ⟨r'', hr'', hon'⟩ := step_keptBy call hr'
  exact ⟨r'', hr'', hon.trans hon'⟩

theorem reached_valid {id rootRunId : String} {limits : ExecutionLimits} {nowMs : ℕ} {s₀ : ExecutionScope}
    (h : ExecutionScope.new id rootRunId limits nowMs = .ok s₀) (calls : List Call) :
    (run step s₀ calls).validate = .ok () := by
  refine run_induction step s₀ (P := fun _ t => t.validate = .ok ()) calls (new_spec h).2.2.2 ?_
  intro l call hl
  rcases step_cases (run step s₀ l) call with ⟨hs, _⟩ | ⟨_, _, _, _, _, _, _, _, hallow⟩ | ⟨_, _, _, _, _, _, _, _, hv⟩
  · rw [hs]
    exact hl
  · exact (checkAllowance_spec hallow).1
  · exact hv

theorem consumption_version (s : ExecutionScope) (version : ℕ) :
    ExecutionScope.consumption { s with version } = s.consumption := rfl

/-- **Any order of reports.**  On every reached scope: agreeing reports on a model attempt are all accepted, and lists
with the same reports leave the same reservation and the same charges, in whatever order and however often they come;
what an accepted report saw stays charged, and an operation that was retired stays so. -/
theorem settlements_any_order {id rootRunId : String} {limits : ExecutionLimits} {nowMs : ℕ} {s₀ : ExecutionScope}
    (h : ExecutionScope.new id rootRunId limits nowMs = .ok s₀) (calls : List Call) :
    let s := run step s₀ calls
    (∀ (rid : String) (r : ExecutionReservation), s.reservations[rid]? = some r → r.request.operation = .modelAttempt →
      ∀ (u : TokenUsage) (reports reports' : List ReservationSettlement), AgreesWith u r →
      (∀ p ∈ reports, ReportsOn rid u p) → (∀ p, p ∈ reports ↔ p ∈ reports') →
      s.version + reports.length < 2 ^ 64 → s.version + reports'.length < 2 ^ 64 →
      ∃ t t', reports.foldlM settle s = .ok t ∧ reports'.foldlM settle s = .ok t' ∧
        t.reservations = t'.reservations ∧ t.consumption = t'.consumption) ∧
    (∀ (report : ReservationSettlement) (t : ExecutionScope), s.settle report = .ok t → ∀ v, report.Saw v →
      ∀ later usage, (run step t later).consumption = .ok usage →
        v.promptTokens ≤ usage.chargedInputTokens ∧ v.cachedPromptTokens ≤ usage.chargedInputTokens ∧
        v.completionTokens ≤ usage.chargedOutputTokens ∧ v.reasoningTokens ≤ usage.chargedOutputTokens ∧
        v.totalTokens ≤ usage.chargedTotalTokens) ∧
    (∀ (rid : String) (r : ExecutionReservation), s.reservations[rid]? = some r → r.inflight = false →
      ∀ later, ∃ r', (run step s later).reservations[rid]? = some r' ∧ r'.inflight = false) := by
  intro s
  have hv : s.validate = .ok () := reached_valid h calls
  refine ⟨?_, ?_, ?_⟩
  · intro rid r hr hop u reports reports' ha hp hsame hver hver'
    have hp' : ∀ p ∈ reports', ReportsOn rid u p := fun p hm => hp p ((hsame p).mpr hm)
    obtain ⟨t, ht, _, hres, hrest⟩ := settle_all_accepts hv hr hop ha hp hver
    obtain ⟨t', ht', _, hres', hrest'⟩ := settle_all_accepts hv hr hop ha hp' hver'
    have heq : t.reservations = t'.reservations := by
      rw [hres, hres', (absorbing rid u).foldl_eq_of_mem_iff ha hp hsame]
    refine ⟨t, t', ht, ht', heq, ?_⟩
    have hversion : t = { t' with version := t.version } := by
      rw [hrest, hrest', heq]
    rw [hversion]
    exact consumption_version t' t.version
  · intro report t hset v hsaw later usage hc
    obtain ⟨r, r', hr, hr', hcase⟩ := settle_cases hset
    have hget : t.reservations[report.reservationId]? = some r' := by
      rcases hcase with ⟨rfl, rfl⟩ | ⟨rfl, _⟩
      · exact hr
      · simp [settled]
    have hobs : Observed v r'.observedUsage := by
      rw [(ExecutionReservation.settle_spec hr').2.1]
      exact (Observed.of_saw hsaw).merge_right _
    obtain ⟨r'', hr'', hon⟩ := run_keptBy hget later
    obtain ⟨c, hcharge, hin, hout, htot⟩ := consumption_covers hc hr''
    have hcov := charge_covers (hon.observed v hobs) hcharge
    omega
  · intro rid r hr hretired later
    obtain ⟨r', hr', hon⟩ := run_keptBy hr later
    exact ⟨r', hr', hon.retired hretired⟩

namespace Sample

def knownReport (promptTokens : ℕ) : ReservationSettlement :=
  { reservationId := "one", outcome := .known { promptTokens }, physicalRetired := false, observedUsage := none }

def droppedReport : ReservationSettlement :=
  { reservationId := "one", outcome := .unknown (some { promptTokens := 70 }), physicalRetired := true
    observedUsage := none }

end Sample

/-- A reservation that is known to have used 100 tokens rejects a list of reports that all know 200. -/
theorem conflicting_report_rejected :
    ExecutionScope.new "scope" "root" Sample.limits 100 = .ok Sample.scope ∧
      ((run step Sample.scope [.reserve (Sample.attempt "one") 101,
        .settle (Sample.knownReport 100)]).reservations["one"]?).map (·.request.operation) = some .modelAttempt ∧
      (∀ p ∈ [Sample.knownReport 200], ReportsOn "one" { promptTokens := 200 } p) ∧
      ((run step Sample.scope [.reserve (Sample.attempt "one") 101, .settle (Sample.knownReport 100)]).apply
        (.settle (Sample.knownReport 200))).1 = .error (.rejected "Conflicting execution settlement") := by
  refine ⟨rfl, by decide +kernel, ?_, by decide +kernel⟩
  intro p hp
  rw [List.mem_singleton.mp hp]
  exact ⟨rfl, by simp [Sample.knownReport], fun v hv => (SettlementOutcome.known.inj hv).symm⟩

/-- A final report and a dropped permit, in both orders and with a repetition. -/
theorem sample_reports_commute :
    ∃ t t', [Sample.knownReport 100, Sample.droppedReport].foldlM settle
          (run step Sample.scope [.reserve (Sample.attempt "one") 101]) = .ok t ∧
        [Sample.droppedReport, Sample.knownReport 100, Sample.droppedReport].foldlM settle
          (run step Sample.scope [.reserve (Sample.attempt "one") 101]) = .ok t' ∧
        t.reservations = t'.reservations ∧ t.consumption = t'.consumption := by
  have hnew : ExecutionScope.new "scope" "root" Sample.limits 100 = .ok Sample.scope := rfl
  obtain ⟨hcommute, _, _⟩ := settlements_any_order hnew [.reserve (Sample.attempt "one") 101]
  have hr : (run step Sample.scope [.reserve (Sample.attempt "one") 101]).reservations["one"]? =
      some { request := Sample.attempt "one", settlement := none, observedUsage := none } := by decide +kernel
  refine hcommute "one" _ hr rfl { promptTokens := 100 } _ _ ⟨by decide, by simp [ExecutionReservation.outcome]⟩ ?_ ?_
    (by decide +kernel) (by decide +kernel)
  · intro p hp
    rcases List.mem_cons.mp hp with rfl | hp
    · exact ⟨rfl, by simp [Sample.knownReport], fun v hv => (SettlementOutcome.known.inj hv).symm⟩
    · rw [List.mem_singleton.mp hp]
      exact ⟨rfl, by simp [Sample.droppedReport], by simp [Sample.droppedReport]⟩
  · intro p
    simp only [List.mem_cons, List.not_mem_nil, or_false]
    tauto

end ExecutionScope

end AnimaCore
