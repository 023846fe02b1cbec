import AnimaCore.RunDelta

/-!
# AnimaCore.RunDelta.Interleaving — commits and rollbacks in any order

* `Counter` names the seven counters of a runtime, so that what holds of each is said once.
* `Allowed r₀`: a commit brings fresh messages and overflows no counter, a rollback takes back a commit that stands.
* `Exact r₀`: transcript and counters are the first ones and those of the standing commits.
* `Newest`: a rollback takes back the newest commit that stands.  Then the result of a runtime is that of its standing
  commits too (`Recorded`): the undo of a standing commit is the result of the commits under it.
-/

namespace AnimaCore.RunDelta

open Lib

variable {r₀ : AgentRuntime} {s : Commits}

/-! ## Counters -/

inductive Counter
  | promptTokens
  | completionTokens
  | totalTokens
  | cachedPromptTokens
  | reasoningTokens
  | steps
  | events
  deriving DecidableEq, Repr

instance counterFintype : Fintype Counter where
  elems := {.promptTokens, .completionTokens, .totalTokens, .cachedPromptTokens, .reasoningTokens, .steps, .events}
  complete k := by cases k <;> decide

def usageCount (u : TokenUsage) : Counter → ℕ
  | .promptTokens => u.promptTokens
  | .completionTokens => u.completionTokens
  | .totalTokens => u.totalTokens
  | .cachedPromptTokens => u.cachedPromptTokens
  | .reasoningTokens => u.reasoningTokens
  | .steps | .events => 0

def AgentRuntime.count (r : AgentRuntime) : Counter → ℕ
  | .steps => r.stepCounter
  | .events => r.eventTotal
  | k => usageCount r.tokenUsage k

def RuntimeRunDelta.count (delta : RuntimeRunDelta) : Counter → ℕ
  | .steps => delta.stepCount
  | .events => delta.eventTotal
  | k => usageCount delta.tokenUsage k

def totalCount (deltas : List RuntimeRunDelta) (k : Counter) : ℕ := (deltas.map (·.count k)).sum

theorem count_applyRunDelta {r : AgentRuntime} {delta : RuntimeRunDelta} {k : Counter}
    (hfits : r.count k + delta.count k < 2 ^ 64) : (r.applyRunDelta delta).count k = r.count k + delta.count k := by
  have hsaturating : ∀ a b : ℕ, a + b < 2 ^ 64 → saturatingSum a b = a + b := by
    intro a b h
    unfold saturatingSum
    omega
  cases k with
  | steps => exact Nat.mod_eq_of_lt hfits
  | events => exact Nat.mod_eq_of_lt hfits
  | _ => exact hsaturating _ _ hfits

theorem count_revertRunDelta (r : AgentRuntime) (delta : RuntimeRunDelta) (undo : RuntimeRunUndo) (k : Counter) :
    (r.revertRunDelta delta undo).count k = r.count k - delta.count k := by
  cases k <;> rfl

/-! ## The standing commits -/

theorem standing_append (l l' : List Commit) : standing (l ++ l') = standing l ++ standing l' := by
  simp [standing]

theorem standing_cons (c : Commit) (l : List Commit) :
    standing (c :: l) = if c.standing then c.delta :: standing l else standing l := by
  cases hc : c.standing <;> simp [standing, hc]

theorem log_split {log : List Commit} {i : ℕ} {c : Commit} (h : log[i]? = some c) :
    log = log.take i ++ c :: log.drop (i + 1) := by
  obtain ⟨hi, rfl⟩ := List.getElem?_eq_some_iff.mp h
  rw [← List.drop_eq_getElem_cons hi, List.take_append_drop]

theorem standing_of_getElem? {log : List Commit} {i : ℕ} {c : Commit} (h : log[i]? = some c)
    (hc : c.standing = true) :
    standing log = standing (log.take i) ++ c.delta :: standing (log.drop (i + 1)) := by
  conv_lhs => rw [log_split h]
  rw [standing_append, standing_cons, if_pos hc]

theorem standing_set {log : List Commit} {i : ℕ} {c : Commit} (h : log[i]? = some c) :
    standing (log.set i { c with standing := false }) = standing (log.take i) ++ standing (log.drop (i + 1)) := by
  obtain ⟨hi, _⟩ := List.getElem?_eq_some_iff.mp h
  rw [List.set_eq_take_append_cons_drop, if_pos hi, standing_append, standing_cons]
  rfl

/-! ## Allowed steps -/

/-- The messages of two lists have different ids. -/
def IdsApart (l l' : List Message) : Prop := ∀ m ∈ l, ∀ m' ∈ l', m.id ≠ m'.id

/-- A commit brings fresh messages and overflows no counter; a rollback takes back a commit that stands. -/
def Allowed (r₀ : AgentRuntime) (s : Commits) : CommitOp → Prop
  | .commit delta =>
    IdsApart delta.messages r₀.messages ∧ (∀ c ∈ s.log, IdsApart delta.messages c.delta.messages) ∧
      ∀ k, r₀.count k + totalCount (standing s.log) k + delta.count k < 2 ^ 64
  | .rollback index => ∃ c, s.log[index]? = some c ∧ c.standing = true

/-- A rollback takes back the newest commit that stands. -/
def Newest (s : Commits) : CommitOp → Prop
  | .commit _ => True
  | .rollback index => standing (s.log.drop (index + 1)) = []

/-! ## Transcript and counters -/

/-- Transcript and counters are the first ones and those of the standing commits. -/
structure Exact (r₀ : AgentRuntime) (s : Commits) : Prop where
  messages_eq : s.runtime.messages = r₀.messages ++ (standing s.log).flatMap (·.messages)
  count_eq : ∀ k, s.runtime.count k = r₀.count k + totalCount (standing s.log) k

/-- The messages of all deltas ever applied are fresh. -/
structure FreshDeltas (r₀ : AgentRuntime) (deltas : List RuntimeRunDelta) : Prop where
  first : ∀ d ∈ deltas, IdsApart d.messages r₀.messages
  apart : deltas.Pairwise fun d d' => IdsApart d.messages d'.messages

theorem IdsApart.symm {l l' : List Message} (h : IdsApart l l') : IdsApart l' l :=
  fun m hm m' hm' heq => h m' hm' m hm heq.symm

theorem filter_ids_eq_self {ids l : List Message} (h : IdsApart ids l) :
    (l.filter fun m => !(ids.map (·.id)).contains m.id) = l := by
  rw [List.filter_eq_self]
  intro m hm
  rw [Bool.not_eq_true', List.contains_eq_mem, decide_eq_false_iff_not]
  intro hmem
  obtain ⟨m', hm', heq⟩ := List.mem_map.mp hmem
  exact h m' hm' m hm heq

theorem filter_ids_self (l : List Message) : (l.filter fun m => !(l.map (·.id)).contains m.id) = [] := by
  rw [List.filter_eq_nil_iff]
  intro m hm
  simp only [Bool.not_eq_true', List.contains_eq_mem, decide_eq_false_iff_not, not_not]
  exact List.mem_map.mpr ⟨m, hm, rfl⟩

theorem mem_standing {delta : RuntimeRunDelta} {log : List Commit} (h : delta ∈ standing log) :
    ∃ c ∈ log, c.delta = delta := by
  obtain ⟨c, hc, rfl⟩ := List.mem_map.mp h
  exact ⟨c, (List.mem_filter.mp hc).1, rfl⟩

theorem idsApart_standing {ids : List Message} {log : List Commit} (h : ∀ c ∈ log, IdsApart ids c.delta.messages) :
    IdsApart ids ((standing log).flatMap (·.messages)) := by
  intro m hm m' hm'
  obtain ⟨delta, hdelta, hm'⟩ := List.mem_flatMap.mp hm'
  obtain ⟨c, hc, rfl⟩ := mem_standing hdelta
  exact h c hc m hm m' hm'

theorem deltas_set {log : List Commit} {i : ℕ} {c : Commit} (h : log[i]? = some c) :
    (log.set i { c with standing := false }).map (·.delta) = log.map (·.delta) := by
  obtain ⟨hi, rfl⟩ := List.getElem?_eq_some_iff.mp h
  rw [List.map_set]
  refine List.ext_getElem (by simp) ?_
  intro j hj hj'
  rw [List.getElem_set]
  split_ifs with heq
  · subst heq
    simp
  · rfl

theorem FreshDeltas.others (f : FreshDeltas r₀ (s.log.map (·.delta))) {i : ℕ} {c : Commit} (h : s.log[i]? = some c) :
    (∀ c' ∈ s.log.take i, IdsApart c.delta.messages c'.delta.messages) ∧
      ∀ c' ∈ s.log.drop (i + 1), IdsApart c.delta.messages c'.delta.messages := by
  have hapart := List.pairwise_map.mp f.apart
  rw [log_split h, List.pairwise_append, List.pairwise_cons] at hapart
  obtain ⟨_, ⟨hafter, _⟩, hbefore⟩ := hapart
  exact ⟨fun c' hc' => (hbefore c' hc' c List.mem_cons_self).symm, fun c' hc' => hafter c' hc'⟩

theorem totalCount_append (l l' : List RuntimeRunDelta) (k : Counter) :
    totalCount (l ++ l') k = totalCount l k + totalCount l' k := by
  simp [totalCount]

theorem totalCount_cons (d : RuntimeRunDelta) (l : List RuntimeRunDelta) (k : Counter) :
    totalCount (d :: l) k = d.count k + totalCount l k := by
  simp [totalCount]

theorem Exact.commit (e : Exact r₀ s) {delta : RuntimeRunDelta}
    (hfits : ∀ k, r₀.count k + totalCount (standing s.log) k + delta.count k < 2 ^ 64) :
    Exact r₀ (s.step (.commit delta)) := by
  have hstanding : standing (s.step (.commit delta)).log = standing s.log ++ [delta] := standing_append _ _
  constructor
  · rw [hstanding, List.flatMap_append, ← List.append_assoc, ← e.messages_eq]
    show s.runtime.messages ++ delta.messages = _
    simp
  · intro k
    have hk := hfits k
    rw [← e.count_eq] at hk
    rw [hstanding, totalCount_append, totalCount_cons]
    show (s.runtime.applyRunDelta delta).count k = _
    rw [count_applyRunDelta hk, e.count_eq]
    simp [totalCount]
    omega

theorem Exact.rollback (e : Exact r₀ s) (f : FreshDeltas r₀ (s.log.map (·.delta))) {i : ℕ} {c : Commit}
    (hget : s.log[i]? = some c) (hc : c.standing = true) : Exact r₀ (s.step (.rollback i)) := by
  obtain ⟨hbefore, hafter⟩ := f.others hget
  have hold := standing_of_getElem? hget hc
  have hstep : s.step (.rollback i) =
      { runtime := s.runtime.revertRunDelta c.delta c.undo, log := s.log.set i { c with standing := false } } := by
    simp only [Commits.step, hget]
  rw [hstep]
  constructor
  · show s.runtime.messages.filter _ = r₀.messages ++ (standing (s.log.set i _)).flatMap _
    have hfirst : IdsApart c.delta.messages r₀.messages :=
      f.first c.delta (List.mem_map.mpr ⟨c, List.mem_of_getElem? hget, rfl⟩)
    rw [standing_set hget, e.messages_eq, hold]
    simp only [List.flatMap_append, List.flatMap_cons, List.filter_append]
    rw [filter_ids_eq_self hfirst, filter_ids_eq_self (idsApart_standing hbefore), filter_ids_self,
      filter_ids_eq_self (idsApart_standing hafter), List.nil_append]
  · intro k
    show (s.runtime.revertRunDelta c.delta c.undo).count k = r₀.count k + totalCount (standing (s.log.set i _)) k
    rw [count_revertRunDelta, e.count_eq, hold, standing_set hget, totalCount_append, totalCount_append,
      totalCount_cons]
    omega

theorem exact_of_reaches (h : Reaches Commits.step (Allowed r₀) (Commits.start r₀) s) :
    Exact r₀ s ∧ FreshDeltas r₀ (s.log.map (·.delta)) := by
  refine h.invariant (P := fun s => Exact r₀ s ∧ FreshDeltas r₀ (s.log.map (·.delta))) ?_ ?_
  · refine ⟨⟨?_, ?_⟩, ⟨?_, .nil⟩⟩
    · simp [Commits.start, standing]
    · simp [Commits.start, standing, totalCount]
    · simp [Commits.start]
  · rintro s op _ ⟨e, f⟩ hallowed
    cases op with
    | commit delta =>
      obtain ⟨hfirst, hfresh, hfits⟩ := hallowed
      refine ⟨e.commit hfits, ?_⟩
      show FreshDeltas r₀ ((s.log ++ [_]).map Commit.delta)
      rw [List.map_append]
      constructor
      · intro d hd
        rcases List.mem_append.mp hd with hd | hd
        · exact f.first d hd
        · rw [List.map_singleton, List.mem_singleton] at hd
          subst hd
          exact hfirst
      · rw [List.pairwise_append]
        refine ⟨f.apart, List.pairwise_singleton _ _, ?_⟩
        intro d hd d' hd'
        rw [List.map_singleton, List.mem_singleton] at hd'
        subst hd'
        obtain ⟨c, hc, rfl⟩ := List.mem_map.mp hd
        exact (hfresh c hc).symm
    | rollback i =>
      obtain ⟨c, hget, hc⟩ := hallowed
      refine ⟨e.rollback f hget hc, ?_⟩
      simp only [Commits.step, hget]
      rw [deltas_set hget]
      exact f

/-! ## The result of the last run -/

def applyAll (r₀ : AgentRuntime) (deltas : List RuntimeRunDelta) : AgentRuntime :=
  deltas.foldl AgentRuntime.applyRunDelta r₀

/-- The result of the runtime is that of the standing commits, and each of them keeps the result under it. -/
structure Recorded (r₀ : AgentRuntime) (s : Commits) : Prop where
  result_eq : s.runtime.undo = (applyAll r₀ (standing s.log)).undo
  undo_eq : ∀ i c, s.log[i]? = some c → c.standing = true →
    c.undo = (applyAll r₀ (standing (s.log.take i))).undo

theorem undo_applyRunDelta {r r' : AgentRuntime} (h : r.undo = r'.undo) (delta : RuntimeRunDelta) :
    (r.applyRunDelta delta).undo = (r'.applyRunDelta delta).undo := by
  have htask : r.lastTask = r'.lastTask := congrArg RuntimeRunUndo.lastTask h
  simp only [AgentRuntime.undo, AgentRuntime.applyRunDelta, htask]

theorem undo_revertRunDelta {r r' : AgentRuntime} {delta : RuntimeRunDelta}
    (h : r.undo = (r'.applyRunDelta delta).undo) : (r.revertRunDelta delta r'.undo).undo = r'.undo := by
  have htask : r.lastTask = if delta.lastTask.isSome then delta.lastTask else r'.lastTask :=
    congrArg RuntimeRunUndo.lastTask h
  have hstill : r.stillThisRun delta r'.undo = true := by
    unfold AgentRuntime.stillThisRun
    cases hd : delta.lastTask with
    | none =>
      rw [hd] at htask
      exact decide_eq_true htask
    | some task =>
      rw [hd] at htask
      exact decide_eq_true htask
  simp only [AgentRuntime.revertRunDelta, hstill, if_true]
  rfl

theorem Recorded.commit (d : Recorded r₀ s) (delta : RuntimeRunDelta) : Recorded r₀ (s.step (.commit delta)) := by
  have hstanding : standing (s.step (.commit delta)).log = standing s.log ++ [delta] := standing_append _ _
  constructor
  · rw [hstanding]
    show (s.runtime.applyRunDelta delta).undo = _
    rw [applyAll, List.foldl_append]
    exact undo_applyRunDelta d.result_eq delta
  · intro i c hget hc
    change (s.log ++ [_])[i]? = some c at hget
    show c.undo = (applyAll r₀ (standing ((s.log ++ [_]).take i))).undo
    by_cases hi : i < s.log.length
    · rw [List.getElem?_append_left hi] at hget
      rw [List.take_append_of_le_length hi.le]
      exact d.undo_eq i c hget hc
    · have hle : s.log.length ≤ i := Nat.le_of_not_lt hi
      rw [List.getElem?_append_right hle, List.getElem?_singleton] at hget
      split_ifs at hget with hzero
      cases hget
      have heq : i = s.log.length := by omega
      subst heq
      rw [List.take_left]
      exact d.result_eq

theorem Recorded.rollback (d : Recorded r₀ s) {i : ℕ} {c : Commit} (hget : s.log[i]? = some c)
    (hc : c.standing = true) (hnewest : standing (s.log.drop (i + 1)) = []) : Recorded r₀ (s.step (.rollback i)) := by
  have hold := standing_of_getElem? hget hc
  have hnew := standing_set hget
  rw [hnewest] at hold hnew
  have hstep : s.step (.rollback i) =
      { runtime := s.runtime.revertRunDelta c.delta c.undo, log := s.log.set i { c with standing := false } } := by
    simp only [Commits.step, hget]
  rw [hstep]
  have hundo := d.undo_eq i c hget hc
  constructor
  · rw [hnew, List.append_nil]
    have hresult := d.result_eq
    rw [hold, applyAll, List.foldl_append] at hresult
    rw [hundo]
    exact undo_revertRunDelta hresult
  · intro j c' hget' hc'
    change (s.log.set i _)[j]? = some c' at hget'
    show c'.undo = (applyAll r₀ (standing ((s.log.set i _).take j))).undo
    rw [List.getElem?_set] at hget'
    split_ifs at hget' with heq hlen
    · cases hget'
      cases hc'
    · -- a commit after the newest one that stands does not stand
      have hlt : j < i := by
        by_contra hge
        have hmem : c' ∈ s.log.drop (i + 1) := by
          refine List.mem_of_getElem? (i := j - (i + 1)) ?_
          rw [List.getElem?_drop, ← hget']
          congr 1
          omega
        have hstands : c'.delta ∈ standing (s.log.drop (i + 1)) :=
          List.mem_map.mpr ⟨c', List.mem_filter.mpr ⟨hmem, hc'⟩, rfl⟩
        rw [hnewest] at hstands
        cases hstands
      rw [List.take_set_of_le hlt.le]
      exact d.undo_eq j c' hget' hc'

theorem recorded_of_reaches
    (h : Reaches Commits.step (fun s op => Allowed r₀ s op ∧ Newest s op) (Commits.start r₀) s) : Recorded r₀ s := by
  refine h.invariant ⟨rfl, by simp [Commits.start]⟩ ?_
  rintro s op _ d ⟨hallowed, hnewest⟩
  cases op with
  | commit delta => exact d.commit delta
  | rollback i =>
    obtain ⟨c, hget, hc⟩ := hallowed
    exact d.rollback hget hc hnewest

/-- **Commits and rollbacks compose exactly.**  In any order of them the transcript is the first one followed by those of
the standing commits, and every counter is the first one plus theirs; if every rollback takes back the newest commit
that stands, the last result and the status are those that the standing commits alone would leave. -/
theorem commits_and_rollbacks_compose (r₀ : AgentRuntime) (s : Commits)
    (h : Reaches Commits.step (Allowed r₀) (Commits.start r₀) s) :
    s.runtime.messages = r₀.messages ++ (standing s.log).flatMap (·.messages) ∧
      (∀ k, s.runtime.count k = r₀.count k + totalCount (standing s.log) k) ∧
      (Reaches Commits.step (fun s op => Allowed r₀ s op ∧ Newest s op) (Commits.start r₀) s →
        s.runtime.lastTask = (applyAll r₀ (standing s.log)).lastTask ∧
          s.runtime.status = (applyAll r₀ (standing s.log)).status) := by
  obtain ⟨e, _⟩ := exact_of_reaches h
  refine ⟨e.messages_eq, e.count_eq, ?_⟩
  intro hnewest
  have d := recorded_of_reaches hnewest
  exact ⟨congrArg RuntimeRunUndo.lastTask d.result_eq, congrArg RuntimeRunUndo.status d.result_eq⟩

namespace Sample

/-- An agent with a greeting in its transcript. -/
def agent : AgentRuntime :=
  { status := .idle, tokenUsage := {}, lastTask := none, events := [], eventTotal := 3, stepCounter := 0
    messages := [message "m0" "main" "hello"] }
where
  message (id room text : String) : Message :=
    { id, agentId := "agent", roomId := room, content := { text, attachments := none, metadata := none }
      role := .assistant, createdAtMs := 1 }

/-- What a run of a room records on a copy of the agent. -/
def turn (room text : String) : RuntimeRunDelta :=
  let copy : AgentRuntime := { agent with messages := [] }
  let ran : AgentRuntime :=
    { copy with
      status := .completed
      tokenUsage := { totalTokens := 7 }
      messages := [agent.message ("reply-" ++ room) room text]
      lastTask := some { status := .success, data := some { text, attachments := none, metadata := none }
                         error := none, durationMs := 5 }
      eventTotal := 5
      stepCounter := 1 }
  ran.runDeltaSince copy.runBase

/-- Two rooms commit from one base, and the second one is rolled back. -/
def rooms : Commits :=
  run Commits.step (Commits.start agent) [.commit (turn "a" "from a"), .commit (turn "b" "from b"), .rollback 1]

/-- Commits and rollbacks of the sample, newest first. -/
def Orderly (s : Commits) (op : CommitOp) : Prop := Allowed agent s op ∧ Newest s op

theorem rooms_reached : Reaches Commits.step Orderly (Commits.start agent) rooms := by
  have hfirst : Orderly (Commits.start agent) (.commit (turn "a" "from a")) := by
    refine ⟨?_, trivial⟩
    simp only [Allowed, IdsApart]
    decide +kernel
  have hsecond : Orderly ((Commits.start agent).step (.commit (turn "a" "from a"))) (.commit (turn "b" "from b")) := by
    refine ⟨?_, trivial⟩
    simp only [Allowed, IdsApart]
    decide +kernel
  have hthird : Orderly (((Commits.start agent).step (.commit (turn "a" "from a"))).step (.commit (turn "b" "from b")))
      (.rollback 1) := ⟨⟨_, rfl, rfl⟩, rfl⟩
  exact ((Reaches.start.next _ hfirst).next _ hsecond).next _ hthird

end Sample

/-- Two rooms committed from one base; the rollback of the second leaves the agent as the first one left it. -/
theorem rooms_compose :
    Sample.rooms.runtime.messages = Sample.agent.messages ++ (Sample.turn "a" "from a").messages ∧
      Sample.rooms.runtime.count .totalTokens = 7 ∧
      Sample.rooms.runtime.lastTask = (Sample.turn "a" "from a").lastTask := by
  have hreached : Reaches _ (Allowed Sample.agent) _ Sample.rooms := Sample.rooms_reached.mono fun _ _ h => h.1
  obtain ⟨hmessages, hcount, hresult⟩ := commits_and_rollbacks_compose Sample.agent Sample.rooms hreached
  have hstanding : standing Sample.rooms.log = [Sample.turn "a" "from a"] := by decide +kernel
  rw [hstanding] at hmessages hcount hresult
  refine ⟨?_, hcount .totalTokens, (hresult Sample.rooms_reached).1⟩
  rw [hmessages]
  simp

end AnimaCore.RunDelta
