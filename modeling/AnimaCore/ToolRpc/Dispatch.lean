import AnimaCore.ToolRpc

/-!
# AnimaCore.ToolRpc.Dispatch — every call once, in order, and on record

What a program owes to the frames and outcomes it was given, for any list of calls on it.

* `CallStep`: everything one call can do.
* `Books h p`: the table of a program is its dispatched requests with their first settled outcomes, as its history `h`
  has them.  Every call keeps it (`Books.step`), so it holds after any calls (`books_played`).
* `DispatchLaw`: what follows for the next call and for the summary.
-/

namespace AnimaCore.ToolRpc

open Lib

/-! ## The history of a program -/

/-- The requests a history dispatched, oldest first. -/
def dispatched (h : List (RpcCall × RpcReply)) : List RpcRequest :=
  h.filterMap fun entry =>
    match entry.2 with
    | .admitted (.dispatch request) => some request
    | _ => none

/-- The outcome a history settled `sequence` with: that of the first accepted `finish`. -/
def settledOutcome (h : List (RpcCall × RpcReply)) (sequence : ℕ) : Option RpcCallOutcome :=
  h.findSome? fun entry =>
    match entry with
    | (.finish k outcome, .finished) => if k = sequence then some outcome else none
    | _ => none

def frames (h : List (RpcCall × RpcReply)) : ℕ :=
  h.countP fun entry =>
    match entry.1 with
    | .admitFrame _ => true
    | .finish _ _ => false

/-- The bytes of the texts a history settled calls with. -/
def settledBytes (h : List (RpcCall × RpcReply)) : ℕ :=
  (h.map fun entry =>
    match entry with
    | (.finish _ outcome, .finished) => outcome.text.utf8ByteSize
    | _ => 0).sum

/-! ## One call -/

inductive CallStep (parse : List UInt8 → Option RpcRequest) (p : RpcProgram) : RpcCall → RpcReply → RpcProgram → Prop
  | refusedAdmit (bytes : List UInt8) (e : RpcError) (attempts : ℕ)
      (hattempts : attempts = min maxRpcAttempts (p.attempts + 1)) :
      CallStep parse p (.admitFrame bytes) (.refused e) { p with attempts, refusedAttempt := true }
  | replayed (bytes : List UInt8) (request : RpcRequest) (outcome : RpcCallOutcome)
      (hlimit : p.attempts < maxRpcAttempts) (hdecode : decodeRpcRequest parse bytes = .ok request)
      (hget : p.replays[request.sequence]? = some (request, some outcome)) :
      CallStep parse p (.admitFrame bytes) (.admitted (.replay outcome)) { p with attempts := p.attempts + 1 }
  | dispatched (bytes : List UInt8) (request : RpcRequest) (hlimit : p.attempts < maxRpcAttempts)
      (hdecode : decodeRpcRequest parse bytes = .ok request) (htool : request.tool ∈ p.capturedTools)
      (hnew : p.replays[request.sequence]? = none) (hnext : request.sequence = p.replays.size + 1)
      (hroom : p.replays.size < p.effectiveCallLimit)
      (hsettled : ∀ (k : ℕ) entry, p.replays[k]? = some entry → RpcProgram.blockingOutcome entry.2 = false) :
      CallStep parse p (.admitFrame bytes) (.admitted (.dispatch request))
        { p with attempts := p.attempts + 1, replays := p.replays.insert request.sequence (request, none) }
  | refusedFinish (sequence : ℕ) (outcome : RpcCallOutcome) (e : RpcError) :
      CallStep parse p (.finish sequence outcome) (.refused e) p
  | finished (sequence : ℕ) (outcome : RpcCallOutcome) (request : RpcRequest)
      (hget : p.replays[sequence]? = some (request, none))
      (htotal : p.resultBytes + outcome.text.utf8ByteSize ≤ maxRpcTotalResultBytes) :
      CallStep parse p (.finish sequence outcome) .finished
        { p with resultBytes := p.resultBytes + outcome.text.utf8ByteSize
                 replays := p.replays.insert sequence (request, some outcome) }

variable {parse : List UInt8 → Option RpcRequest} {p p' : RpcProgram} {c : RpcCall} {reply : RpcReply}
  {h : List (RpcCall × RpcReply)}

theorem not_blocking_of_any {t : Table ℕ (RpcRequest × Option RpcCallOutcome)}
    (hany : (t.toList.any fun entry => RpcProgram.blockingOutcome entry.2.2) = false) {k : ℕ}
    {entry : RpcRequest × Option RpcCallOutcome} (hget : t[k]? = some entry) :
    RpcProgram.blockingOutcome entry.2 = false := by
  rw [List.any_eq_false] at hany
  have hmem := hany (k, entry) (Table.mem_toList.mpr hget)
  exact Bool.eq_false_iff.mpr hmem

theorem finish_step (sequence : ℕ) (outcome : RpcCallOutcome) :
    CallStep parse p (.finish sequence outcome) (p.call parse (.finish sequence outcome)).1
      (p.call parse (.finish sequence outcome)).2 := by
  cases hf : p.finish sequence outcome with
  | error e =>
    simp only [RpcProgram.call, hf]
    exact .refusedFinish sequence outcome e
  | ok p' =>
    simp only [RpcProgram.call, hf]
    simp only [RpcProgram.finish, bind_eq_ok, okOr_eq_ok, ensure_eq_ok] at hf
    obtain ⟨⟨request, settled⟩, hget, _, rfl, _, _, _, htotal, heq⟩ := hf
    cases heq
    exact .finished sequence outcome request hget htotal

theorem admit_step (hle : p.attempts ≤ maxRpcAttempts) (bytes : List UInt8) :
    CallStep parse p (.admitFrame bytes) (p.call parse (.admitFrame bytes)).1 (p.call parse (.admitFrame bytes)).2 := by
  by_cases hlimit : p.attempts = maxRpcAttempts
  · simp only [RpcProgram.call, RpcProgram.admitFrame, if_pos hlimit]
    exact .refusedAdmit bytes .attemptLimit p.attempts (by omega)
  have hlt : p.attempts < maxRpcAttempts := lt_of_le_of_ne hle hlimit
  cases ha : RpcProgram.admitInner parse { p with attempts := p.attempts + 1 } bytes with
  | error e =>
    simp only [RpcProgram.call, RpcProgram.admitFrame, if_neg hlimit, ha]
    exact .refusedAdmit bytes e (p.attempts + 1) (by omega)
  | ok answer =>
    obtain ⟨admission, p'⟩ := answer
    simp only [RpcProgram.call, RpcProgram.admitFrame, if_neg hlimit, ha]
    simp only [RpcProgram.admitInner, bind_eq_ok, ensure_eq_ok] at ha
    obtain ⟨request, hdecode, _, htool, ha⟩ := ha
    cases hget : p.replays[request.sequence]? with
    | some entry =>
      obtain ⟨original, outcome⟩ := entry
      rw [hget] at ha
      simp only [bind_eq_ok, ensure_eq_ok, okOr_eq_ok] at ha
      obtain ⟨_, rfl, outcome, rfl, heq⟩ := ha
      cases heq
      exact .replayed bytes original outcome hlt hdecode hget
    | none =>
      rw [hget] at ha
      simp only [bind_eq_ok, ensure_eq_ok] at ha
      obtain ⟨_, hnext, _, hroom, _, hsettled, heq⟩ := ha
      cases heq
      exact .dispatched bytes request hlt hdecode htool hget hnext hroom fun k entry => not_blocking_of_any hsettled

variable (parse) in
theorem call_step (hle : p.attempts ≤ maxRpcAttempts) (c : RpcCall) :
    CallStep parse p c (p.call parse c).1 (p.call parse c).2 := by
  cases c with
  | admitFrame bytes => exact admit_step hle bytes
  | finish sequence outcome => exact finish_step sequence outcome

/-! ## The books of a program -/

/-- The table of `p` is what its history `h` dispatched and settled, and its counters are those of `h`. -/
structure Books (parse : List UInt8 → Option RpcRequest) (h : List (RpcCall × RpcReply)) (p : RpcProgram) : Prop where
  attempts_eq : p.attempts = min maxRpcAttempts (frames h)
  refused_iff : p.refusedAttempt = true ↔ ∃ bytes e, (RpcCall.admitFrame bytes, RpcReply.refused e) ∈ h
  in_order : (dispatched h).map (·.sequence) = List.range' 1 (dispatched h).length
  captured : ∀ r ∈ dispatched h, r.tool ∈ p.capturedTools
  limited : (dispatched h).length ≤ p.effectiveCallLimit
  table : ∀ k : ℕ, p.replays[k]? =
    ((dispatched h).find? fun r => r.sequence == k).map fun r => (r, settledOutcome h k)
  bytes_eq : p.resultBytes = settledBytes h
  capped : p.resultBytes ≤ maxRpcTotalResultBytes
  decoded : ∀ bytes r, (RpcCall.admitFrame bytes, RpcReply.admitted (.dispatch r)) ∈ h →
    decodeRpcRequest parse bytes = .ok r
  settled_mem : ∀ k o, settledOutcome h k = some o → ∃ r ∈ dispatched h, r.sequence = k

theorem books_new (tools : List String) (slots : ℕ) : Books parse [] (.new tools slots) where
  attempts_eq := rfl
  refused_iff := by simp [RpcProgram.new]
  in_order := rfl
  captured := by simp [dispatched]
  limited := by simp [dispatched]
  table k := by simp [RpcProgram.new, dispatched]
  bytes_eq := rfl
  capped := Nat.zero_le _
  decoded := by simp
  settled_mem := by simp [settledOutcome]

theorem mem_dispatched {r : RpcRequest} :
    r ∈ dispatched h ↔ ∃ c, (c, RpcReply.admitted (.dispatch r)) ∈ h := by
  simp only [dispatched, List.mem_filterMap]
  constructor
  · rintro ⟨⟨c, reply⟩, hmem, heq⟩
    split at heq
    · next request hreply =>
      cases heq
      cases hreply
      exact ⟨c, hmem⟩
    · cases heq
  · rintro ⟨c, hmem⟩
    exact ⟨_, hmem, rfl⟩

theorem Books.find (b : Books parse h p) {r : RpcRequest} (hr : r ∈ dispatched h) :
    ((dispatched h).find? fun r' => r'.sequence == r.sequence) = some r := by
  have hnodup : ((dispatched h).map (·.sequence)).Nodup := by
    rw [b.in_order]
    exact List.nodup_range'
  obtain ⟨r', hr'⟩ : ∃ r', ((dispatched h).find? fun r' => r'.sequence == r.sequence) = some r' := by
    rw [← Option.isSome_iff_exists, List.find?_isSome]
    exact ⟨r, hr, by simp⟩
  have hseq : r'.sequence = r.sequence := by simpa using List.find?_some hr'
  rw [hr']
  congr 1
  exact List.inj_on_of_nodup_map hnodup (List.mem_of_find?_eq_some hr') hr hseq

theorem Books.getElem? (b : Books parse h p) {r : RpcRequest} (hr : r ∈ dispatched h) :
    p.replays[r.sequence]? = some (r, settledOutcome h r.sequence) := by
  rw [b.table, b.find hr]
  rfl

theorem Books.of_getElem? (b : Books parse h p) {k : ℕ} {r : RpcRequest} {o : Option RpcCallOutcome}
    (hget : p.replays[k]? = some (r, o)) : r ∈ dispatched h ∧ r.sequence = k ∧ settledOutcome h k = o := by
  rw [b.table, Option.map_eq_some_iff] at hget
  obtain ⟨r', hfind, heq⟩ := hget
  cases heq
  refine ⟨List.mem_of_find?_eq_some hfind, ?_, rfl⟩
  simpa using List.find?_some hfind

theorem Books.mem_iff (b : Books parse h p) (k : ℕ) : k ∈ p.replays ↔ 1 ≤ k ∧ k ≤ (dispatched h).length := by
  have hrange : k ∈ (dispatched h).map (·.sequence) ↔ 1 ≤ k ∧ k ≤ (dispatched h).length := by
    rw [b.in_order, List.mem_range'_1]
    omega
  rw [← hrange, Table.mem_iff_getElem?_isSome, b.table, Option.isSome_map, List.find?_isSome, List.mem_map]
  simp

theorem Books.size_eq (b : Books parse h p) : p.replays.size = (dispatched h).length := by
  have hkeys := Table.keys_eq_range b.mem_iff
  have hlen := congrArg List.length hkeys
  simpa using hlen

/-! ### One more call -/

theorem dispatched_concat (c : RpcCall) (reply : RpcReply) :
    dispatched (h ++ [(c, reply)]) = dispatched h ++ dispatched [(c, reply)] := List.filterMap_append

theorem settledOutcome_concat (c : RpcCall) (reply : RpcReply) (k : ℕ) :
    settledOutcome (h ++ [(c, reply)]) k = (settledOutcome h k).or (settledOutcome [(c, reply)] k) :=
  List.findSome?_append

theorem frames_concat (c : RpcCall) (reply : RpcReply) :
    frames (h ++ [(c, reply)]) = frames h + frames [(c, reply)] := List.countP_append

theorem settledBytes_concat (c : RpcCall) (reply : RpcReply) :
    settledBytes (h ++ [(c, reply)]) = settledBytes h + settledBytes [(c, reply)] := by
  simp [settledBytes]

theorem Books.quiet (b : Books parse h p) (hd : dispatched [(c, reply)] = [])
    (hs : ∀ k, settledOutcome [(c, reply)] k = none) (hb : settledBytes [(c, reply)] = 0) {attempts : ℕ}
    {refused : Bool} (hattempts : attempts = min maxRpcAttempts (frames (h ++ [(c, reply)])))
    (hrefused : refused = true ↔ ∃ bytes e, (RpcCall.admitFrame bytes, RpcReply.refused e) ∈ h ++ [(c, reply)]) :
    Books parse (h ++ [(c, reply)]) { p with attempts, refusedAttempt := refused } := by
  have hdisp : dispatched (h ++ [(c, reply)]) = dispatched h := by rw [dispatched_concat, hd, List.append_nil]
  refine ⟨hattempts, hrefused, ?_, ?_, ?_, ?_, ?_, b.capped, ?_, ?_⟩
  · rw [hdisp]
    exact b.in_order
  · rw [hdisp]
    exact b.captured
  · rw [hdisp]
    exact b.limited
  · intro k
    rw [hdisp, settledOutcome_concat, hs, Option.or_none]
    exact b.table k
  · rw [settledBytes_concat, hb]
    exact b.bytes_eq
  · intro bytes r hmem
    rcases List.mem_append.mp hmem with hmem | hmem
    · exact b.decoded bytes r hmem
    · rw [List.mem_singleton] at hmem
      have hr : r ∈ dispatched [(c, reply)] := mem_dispatched.mpr ⟨_, List.mem_singleton.mpr hmem⟩
      rw [hd] at hr
      cases hr
  · intro k o hk
    rw [settledOutcome_concat, hs, Option.or_none] at hk
    rw [hdisp]
    exact b.settled_mem k o hk

theorem Books.dispatch (b : Books parse h p) {bytes : List UInt8} {request : RpcRequest}
    (hlimit : p.attempts < maxRpcAttempts) (hdecode : decodeRpcRequest parse bytes = .ok request)
    (htool : request.tool ∈ p.capturedTools) (hnext : request.sequence = p.replays.size + 1)
    (hroom : p.replays.size < p.effectiveCallLimit) :
    Books parse (h ++ [(.admitFrame bytes, .admitted (.dispatch request))])
      { p with attempts := p.attempts + 1, replays := p.replays.insert request.sequence (request, none) } := by
  have hdisp : dispatched (h ++ [(.admitFrame bytes, .admitted (.dispatch request))]) = dispatched h ++ [request] :=
    dispatched_concat _ _
  have hsettled : ∀ k, settledOutcome (h ++ [(.admitFrame bytes, .admitted (.dispatch request))]) k = settledOutcome h k := by
    intro k
    rw [settledOutcome_concat]
    exact Option.or_none
  rw [b.size_eq] at hnext hroom
  have hfresh : ∀ r ∈ dispatched h, r.sequence ≠ request.sequence := by
    intro r hr heq
    have hmem : r.sequence ∈ (dispatched h).map (·.sequence) := List.mem_map.mpr ⟨r, hr, rfl⟩
    rw [b.in_order, List.mem_range'_1] at hmem
    omega
  have hunsettled : settledOutcome h request.sequence = none := by
    cases ho : settledOutcome h request.sequence with
    | none => rfl
    | some o =>
      obtain ⟨r, hr, hseq⟩ := b.settled_mem _ o ho
      exact absurd hseq (hfresh r hr)
  constructor
  · rw [frames_concat]
    have := b.attempts_eq
    have hone : frames [(RpcCall.admitFrame bytes, RpcReply.admitted (.dispatch request))] = 1 := rfl
    show p.attempts + 1 = _
    omega
  · show p.refusedAttempt = true ↔ _
    rw [b.refused_iff]
    simp
  · rw [hdisp, List.map_append, b.in_order, List.length_append, List.length_singleton, List.range'_concat]
    simp [hnext, Nat.add_comm]
  · intro r hr
    rw [hdisp, List.mem_append, List.mem_singleton] at hr
    rcases hr with hr | rfl
    · exact b.captured r hr
    · exact htool
  · rw [hdisp, List.length_append, List.length_singleton]
    exact hroom
  · intro k
    rw [Table.getElem?_insert_eq, hdisp, hsettled, List.find?_append]
    by_cases hk : request.sequence = k
    · subst hk
      have hnone : ((dispatched h).find? fun r => r.sequence == request.sequence) = none := by
        rw [List.find?_eq_none]
        intro r hr heq
        exact hfresh r hr (beq_iff_eq.mp heq)
      rw [if_pos rfl, hnone, hunsettled]
      simp
    · have hlast : ([request].find? fun r => r.sequence == k) = none := by simp [hk]
      rw [if_neg hk, hlast, Option.or_none]
      exact b.table k
  · rw [settledBytes_concat]
    exact b.bytes_eq
  · exact b.capped
  · intro bytes' r hmem
    rcases List.mem_append.mp hmem with hmem | hmem
    · exact b.decoded bytes' r hmem
    · rw [List.mem_singleton] at hmem
      cases hmem
      exact hdecode
  · intro k o hk
    rw [hsettled] at hk
    obtain ⟨r, hr, hseq⟩ := b.settled_mem k o hk
    rw [hdisp]
    exact ⟨r, List.mem_append_left _ hr, hseq⟩

theorem Books.finish (b : Books parse h p) {sequence : ℕ} {outcome : RpcCallOutcome} {request : RpcRequest}
    (hget : p.replays[sequence]? = some (request, none))
    (htotal : p.resultBytes + outcome.text.utf8ByteSize ≤ maxRpcTotalResultBytes) :
    Books parse (h ++ [(.finish sequence outcome, .finished)])
      { p with resultBytes := p.resultBytes + outcome.text.utf8ByteSize
               replays := p.replays.insert sequence (request, some outcome) } := by
  obtain ⟨hmem, hseq, hopen⟩ := b.of_getElem? hget
  have hdisp : dispatched (h ++ [(.finish sequence outcome, .finished)]) = dispatched h := by
    rw [dispatched_concat]
    exact List.append_nil _
  have hone : ∀ k, settledOutcome [(RpcCall.finish sequence outcome, RpcReply.finished)] k =
      if sequence = k then some outcome else none := by
    intro k
    by_cases hk : sequence = k <;> simp [settledOutcome, hk]
  constructor
  · rw [frames_concat]
    exact b.attempts_eq
  · show p.refusedAttempt = true ↔ _
    rw [b.refused_iff]
    simp
  · rw [hdisp]
    exact b.in_order
  · rw [hdisp]
    exact b.captured
  · rw [hdisp]
    exact b.limited
  · intro k
    rw [Table.getElem?_insert_eq, hdisp, settledOutcome_concat, hone]
    by_cases hk : sequence = k
    · subst hk
      have hfind := b.find hmem
      rw [hseq] at hfind
      rw [if_pos rfl, if_pos rfl, hopen, hfind]
      rfl
    · rw [if_neg hk, if_neg hk, Option.or_none]
      exact b.table k
  · rw [settledBytes_concat, ← b.bytes_eq]
    simp [settledBytes]
  · exact htotal
  · intro bytes r hmem'
    rcases List.mem_append.mp hmem' with hmem' | hmem'
    · exact b.decoded bytes r hmem'
    · rw [List.mem_singleton] at hmem'
      cases hmem'
  · intro k o hk
    rw [hdisp]
    rw [settledOutcome_concat, hone] at hk
    by_cases hks : sequence = k
    · exact ⟨request, hmem, hseq.trans hks⟩
    · rw [if_neg hks, Option.or_none] at hk
      exact b.settled_mem k o hk

theorem Books.attempts_le (b : Books parse h p) : p.attempts ≤ maxRpcAttempts := by
  rw [b.attempts_eq]
  exact Nat.min_le_left _ _

theorem Books.step (b : Books parse h p) (hs : CallStep parse p c reply p') : Books parse (h ++ [(c, reply)]) p' := by
  have hattempts := b.attempts_eq
  cases hs with
  | refusedAdmit bytes e attempts heq =>
    refine b.quiet rfl (fun k => rfl) rfl ?_ ?_
    · rw [frames_concat]
      have hone : frames [(RpcCall.admitFrame bytes, RpcReply.refused e)] = 1 := rfl
      omega
    · simp only [true_iff]
      exact ⟨bytes, e, List.mem_append_right _ (List.mem_singleton.mpr rfl)⟩
  | replayed bytes request outcome hlimit hdecode hget =>
    refine b.quiet rfl (fun k => rfl) rfl ?_ ?_
    · rw [frames_concat]
      have hone : frames [(RpcCall.admitFrame bytes, RpcReply.admitted (.replay outcome))] = 1 := rfl
      omega
    · rw [b.refused_iff]
      simp
  | dispatched bytes request hlimit hdecode htool hnew hnext hroom hsettled =>
    exact b.dispatch hlimit hdecode htool hnext hroom
  | refusedFinish sequence outcome e =>
    refine b.quiet rfl (fun k => rfl) rfl ?_ ?_
    · rw [frames_concat]
      exact hattempts
    · rw [b.refused_iff]
      simp
  | finished sequence outcome request hget htotal => exact b.finish hget htotal

variable (parse) in
theorem books_played (tools : List String) (slots : ℕ) (calls : List RpcCall) :
    Books parse (played parse tools slots calls).history (played parse tools slots calls).program := by
  refine run_induction (play parse) _ (P := fun _ s => Books parse s.history s.program) calls (books_new tools slots) ?_
  intro calls c b
  exact b.step (call_step parse b.attempts_le c)

/-! ## The law -/

structure DispatchLaw (parse : List UInt8 → Option RpcRequest) (tools : List String) (slots : ℕ) (s : Played) : Prop where
  /-- The dispatched requests are numbered 1, 2, 3, … -/
  in_order : (dispatched s.history).map (·.sequence) = List.range' 1 (dispatched s.history).length
  captured : ∀ r ∈ dispatched s.history, r.tool ∈ tools
  limited : (dispatched s.history).length ≤ min slots maxEffectiveCalls
  /-- Nothing is dispatched while an earlier call is open or uncertain. -/
  settled_before : ∀ bytes r, (s.program.call parse (.admitFrame bytes)).1 = .admitted (.dispatch r) →
    ∀ r' ∈ dispatched s.history, ∃ o, settledOutcome s.history r'.sequence = some o ∧ o.effectUncertain = false
  /-- A frame that comes again is answered with the first settled outcome, while frames are taken at all. -/
  replayed : ∀ bytes r o, (RpcCall.admitFrame bytes, RpcReply.admitted (.dispatch r)) ∈ s.history →
    settledOutcome s.history r.sequence = some o → frames s.history < maxRpcAttempts →
    (s.program.call parse (.admitFrame bytes)).1 = .admitted (.replay o)
  /-- Once the frames are used up, it is refused. -/
  exhausted : ∀ bytes, maxRpcAttempts ≤ frames s.history →
    (s.program.call parse (.admitFrame bytes)).1 = .refused .attemptLimit
  /-- A number that was dispatched is not dispatched again, whatever the frame. -/
  changed : ∀ bytes r r', decodeRpcRequest parse bytes = .ok r' → r ∈ dispatched s.history →
    r'.sequence = r.sequence → r' ≠ r → ∃ e, (s.program.call parse (.admitFrame bytes)).1 = .refused e
  settled_once : ∀ k o o', settledOutcome s.history k = some o → ∃ e, (s.program.call parse (.finish k o')).1 = .refused e
  bytes_eq : s.program.resultBytes = settledBytes s.history
  capped : s.program.resultBytes ≤ maxRpcTotalResultBytes
  refused_unchanged : ∀ c e, (s.program.call parse c).1 = .refused e →
    (s.program.call parse c).2.replays = s.program.replays ∧
      (s.program.call parse c).2.resultBytes = s.program.resultBytes
  completed : (s.program.summary (some 0)).outcome = .completed →
    (∀ r ∈ dispatched s.history,
      ∃ o, settledOutcome s.history r.sequence = some o ∧ o.succeeded = true ∧ o.effectUncertain = false) ∧
    ∀ bytes e, (RpcCall.admitFrame bytes, RpcReply.refused e) ∉ s.history

theorem blockingOutcome_eq_false {o : Option RpcCallOutcome} (ho : RpcProgram.blockingOutcome o = false) :
    ∃ outcome, o = some outcome ∧ outcome.effectUncertain = false := by
  cases o with
  | none => cases ho
  | some outcome => exact ⟨outcome, rfl, ho⟩

theorem admit_of_replay (hlimit : p.attempts < maxRpcAttempts) {bytes : List UInt8} {r : RpcRequest}
    {o : RpcCallOutcome} (hdecode : decodeRpcRequest parse bytes = .ok r) (htool : r.tool ∈ p.capturedTools)
    (hget : p.replays[r.sequence]? = some (r, some o)) :
    (p.call parse (.admitFrame bytes)).1 = .admitted (.replay o) := by
  have hne : p.attempts ≠ maxRpcAttempts := ne_of_lt hlimit
  have hinner : RpcProgram.admitInner parse { p with attempts := p.attempts + 1 } bytes =
      .ok (.replay o, { p with attempts := p.attempts + 1 }) := by
    simp only [RpcProgram.admitInner, bind_eq_ok, ensure_eq_ok]
    refine ⟨r, hdecode, (), htool, ?_⟩
    rw [hget]
    simp only [bind_eq_ok, ensure_eq_ok, okOr_eq_ok]
    exact ⟨(), trivial, o, rfl, rfl⟩
  simp only [RpcProgram.call, RpcProgram.admitFrame, if_neg hne, hinner]

theorem summary_completed (hc : (p.summary (some 0)).outcome = .completed) :
    (∀ (k : ℕ) entry, p.replays[k]? = some entry →
      ∃ o, entry.2 = some o ∧ o.succeeded = true ∧ o.effectUncertain = false) ∧ p.refusedAttempt = false := by
  simp only [RpcProgram.summary] at hc
  split_ifs at hc with hu hf
  refine ⟨?_, hf.2.2⟩
  intro k entry hget
  have hmem : entry.2 ∈ p.replays.toList.map fun e => e.2.2 :=
    List.mem_map.mpr ⟨(k, entry), Table.mem_toList.mpr hget, rfl⟩
  have hopen : RpcProgram.blockingOutcome entry.2 = false := by
    have hall := List.any_eq_false.mp (Bool.not_eq_true _ ▸ hu)
    exact Bool.eq_false_iff.mpr (hall _ hmem)
  obtain ⟨o, ho, hcertain⟩ := blockingOutcome_eq_false hopen
  have hfailed := List.countP_eq_zero.mp hf.2.1 _ hmem
  refine ⟨o, ho, ?_, hcertain⟩
  rw [ho] at hfailed
  simpa [RpcProgram.failedOutcome, hcertain] using hfailed

theorem step_constant (hs : CallStep parse p c reply p') :
    p'.capturedTools = p.capturedTools ∧ p'.effectiveCallLimit = p.effectiveCallLimit := by
  cases hs <;> exact ⟨rfl, rfl⟩

variable (parse) in
theorem played_constant (tools : List String) (slots : ℕ) (calls : List RpcCall) :
    (played parse tools slots calls).program.capturedTools = tools ∧
      (played parse tools slots calls).program.effectiveCallLimit = min slots maxEffectiveCalls := by
  refine run_induction (play parse) _
    (P := fun calls s => s.program.capturedTools = tools ∧ s.program.effectiveCallLimit = min slots maxEffectiveCalls)
    calls ⟨rfl, rfl⟩ ?_
  intro calls c ih
  obtain ⟨ht, hl⟩ := step_constant (call_step parse (books_played parse tools slots calls).attempts_le c)
  exact ⟨ht.trans ih.1, hl.trans ih.2⟩

/-- **Calls of a tool program.**  For any list of frames and outcomes: the calls are dispatched once, in order, one at
a time and only for captured tools; a repeated frame replays its first outcome as long as the program takes frames; the
counted bytes are those of the settled texts; a refusal changes no outcome; and a completed summary hides nothing. -/
theorem program_calls_on_record (parse : List UInt8 → Option RpcRequest) (tools : List String) (slots : ℕ)
    (calls : List RpcCall) : DispatchLaw parse tools slots (played parse tools slots calls) := by
  have b := books_played parse tools slots calls
  obtain ⟨htools, hlimit⟩ := played_constant parse tools slots calls
  set s := played parse tools slots calls with hs
  have hcall := fun c => call_step parse b.attempts_le c
  refine ⟨b.in_order, ?_, ?_, ?_, ?_, ?_, ?_, ?_, b.bytes_eq, b.capped, ?_, ?_⟩
  · intro r hr
    rw [← htools]
    exact b.captured r hr
  · rw [← hlimit]
    exact b.limited
  · intro bytes r hreply r' hr'
    have hstep := hcall (.admitFrame bytes)
    rw [hreply] at hstep
    generalize (s.program.call parse (.admitFrame bytes)).2 = p' at hstep
    cases hstep with
    | dispatched _ _ _ _ _ _ _ _ hsettled => exact blockingOutcome_eq_false (hsettled _ _ (b.getElem? hr'))
  · intro bytes r o hmem ho hframes
    have hr : r ∈ dispatched s.history := mem_dispatched.mpr ⟨_, hmem⟩
    have hattempts : s.program.attempts < maxRpcAttempts := by
      rw [b.attempts_eq]
      exact lt_of_le_of_lt (Nat.min_le_right _ _) hframes
    refine admit_of_replay hattempts (b.decoded bytes r hmem) (b.captured r hr) ?_
    rw [b.getElem? hr, ho]
  · intro bytes hframes
    have hattempts : s.program.attempts = maxRpcAttempts := by
      rw [b.attempts_eq]
      exact Nat.min_eq_left hframes
    simp only [RpcProgram.call, RpcProgram.admitFrame, if_pos hattempts]
  · intro bytes r r' hdecode hr hseq hne
    have hstep := hcall (.admitFrame bytes)
    generalize s.program.call parse (.admitFrame bytes) = answer at hstep
    obtain ⟨reply, p'⟩ := answer
    have hget := b.getElem? hr
    cases hstep with
    | refusedAdmit _ e => exact ⟨e, rfl⟩
    | replayed _ request outcome _ hdecode' hget' =>
      cases hdecode.symm.trans hdecode'
      rw [hseq, hget] at hget'
      have hsame := (Prod.mk.inj (Option.some.inj hget')).1
      exact absurd hsame.symm hne
    | dispatched _ request _ hdecode' _ hnew =>
      cases hdecode.symm.trans hdecode'
      rw [hseq, hget] at hnew
      cases hnew
  · intro k o o' ho
    have hstep := hcall (.finish k o')
    generalize s.program.call parse (.finish k o') = answer at hstep
    obtain ⟨reply, p'⟩ := answer
    cases hstep with
    | refusedFinish _ _ e => exact ⟨e, rfl⟩
    | finished _ _ request hget =>
      obtain ⟨_, _, hopen⟩ := b.of_getElem? hget
      rw [ho] at hopen
      cases hopen
  · intro c e hreply
    have hstep := hcall c
    rw [hreply] at hstep
    generalize (s.program.call parse c).2 = p' at hstep
    cases hstep <;> exact ⟨rfl, rfl⟩
  · intro hc
    obtain ⟨hall, hrefused⟩ := summary_completed hc
    constructor
    · intro r hr
      exact hall _ _ (b.getElem? hr)
    · intro bytes e hmem
      have := b.refused_iff.mpr ⟨bytes, e, hmem⟩
      rw [hrefused] at this
      cases this

namespace Sample

/-- The bytes of a frame that asks for `read_file`. -/
def readFrame : List UInt8 :=
  "\x7b\"version\":1,\"cellEpoch\":\"cell\",\"sequence\":1,\"tool\":\"read_file\",\"args\":\x7b\x7d\x7d".toList.map
    fun c => UInt8.ofNat c.toNat

def readRequest : RpcRequest := { version := 1, cellEpoch := "cell", sequence := 1, tool := "read_file", args := .nil }

def parseFrame (bytes : List UInt8) : Option RpcRequest := if bytes = readFrame then some readRequest else none

def readOutcome : RpcCallOutcome := { succeeded := true, text := "alpha", effectUncertain := false }

/-- The frame is dispatched, settled and sent 127 times more. -/
def repeatedReads : Played :=
  played parseFrame ["read_file"] 49
    ([.admitFrame readFrame, .finish 1 readOutcome] ++ List.replicate 127 (.admitFrame readFrame))

end Sample

/-- The 129th frame is refused although its call is settled. -/
theorem repeated_frame_refused :
    (RpcCall.admitFrame Sample.readFrame, RpcReply.admitted (.dispatch Sample.readRequest)) ∈ Sample.repeatedReads.history ∧
      settledOutcome Sample.repeatedReads.history 1 = some Sample.readOutcome ∧
      (Sample.repeatedReads.program.call Sample.parseFrame (.admitFrame Sample.readFrame)).1 = .refused .attemptLimit := by
  decide +kernel

end AnimaCore.ToolRpc
