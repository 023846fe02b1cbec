import AnimaCore.AutomationEvents

/-!
# AnimaCore.AutomationEvents.OncePerSchedule — an event runs at most once for an automation

Any order of enqueues, claims, discards, removals and restarts, between edits of the automations that change no agent and
take no identifier again.

* `Stored`: what holds of a registry beside its automations; it is what `restore` checks, so `restore_stored`.
* `Kept`: the occurrences of an automation that stays are those it was given, in that order, and each was claimed at most
  once.
-/

namespace AnimaCore.AutomationEvents

open Lib Lib.Table EventRegistry

variable {host : Host} {schedules : Schedules} {values : List ScheduledPromptRecord} {q : Request} {r : EventRegistry}

/-! ## Identifiers -/

theorem div_eq_of_byte {n m k : ℕ} (habove : n / 2 ^ (k + 8) = m / 2 ^ (k + 8))
    (hbyte : n / 2 ^ k % 256 = m / 2 ^ k % 256) : n / 2 ^ k = m / 2 ^ k := by
  have hsplit : ∀ x : ℕ, x / 2 ^ k = 256 * (x / 2 ^ (k + 8)) + x / 2 ^ k % 256 := by
    intro x
    have hdiv : x / 2 ^ (k + 8) = x / 2 ^ k / 256 := by
      rw [pow_add, ← Nat.div_div_eq_div_mul]
      rfl
    rw [hdiv]
    exact (Nat.div_add_mod _ 256).symm
  rw [hsplit n, hsplit m, habove, hbyte]

theorem beBytes_injective {n m : ℕ} (hn : n < 2 ^ 64) (hm : m < 2 ^ 64) (h : beBytes n = beBytes m) : n = m := by
  simp only [beBytes, List.map_cons, List.map_nil, List.cons.injEq, and_true, ← UInt8.toNat_inj, UInt8.toNat_ofNat'] at h
  obtain ⟨h56, h48, h40, h32, h24, h16, h8, h0⟩ := h
  have htop : n / 2 ^ 64 = m / 2 ^ 64 := by rw [Nat.div_eq_of_lt hn, Nat.div_eq_of_lt hm]
  have hall := div_eq_of_byte (div_eq_of_byte (div_eq_of_byte (div_eq_of_byte (div_eq_of_byte (div_eq_of_byte
    (div_eq_of_byte (div_eq_of_byte htop h56) h48) h40) h32) h24) h16) h8) h0
  rwa [pow_zero, Nat.div_one, Nat.div_one] at hall

theorem occurrenceId_injective (hsha : Function.Injective host.sha256) {s s' e e' : String}
    (hs : s.utf8ByteSize < 2 ^ 64) (hs' : s'.utf8ByteSize < 2 ^ 64)
    (h : occurrenceId host s e = occurrenceId host s' e') : s = s' ∧ e = e' := by
  unfold occurrenceId at h
  have hbytes := hsha (String.append_right_inj _ |>.mp h)
  rw [List.append_assoc, List.append_assoc] at hbytes
  have hlen : (beBytes s.utf8ByteSize).length = (beBytes s'.utf8ByteSize).length := rfl
  obtain ⟨hsize, hrest⟩ := List.append_inj hbytes hlen
  have hsize := beBytes_injective hs hs' hsize
  obtain ⟨hs, he⟩ := List.append_inj hrest hsize
  exact ⟨String.toByteArray_inj.mp (ByteArray.ext (Array.toList_inj.mp hs)),
    String.toByteArray_inj.mp (ByteArray.ext (Array.toList_inj.mp he))⟩

/-! ## What a registry holds -/

def fresh (v : EventOccurrence) : EventOccurrence := { v with claimed := false }

@[simp] theorem fresh_retire (v : EventOccurrence) : fresh (retire schedules v) = fresh v := by
  unfold retire
  split_ifs <;> rfl

@[simp] theorem scheduleId_retire (v : EventOccurrence) : (retire schedules v).scheduleId = v.scheduleId := by
  unfold retire
  split_ifs <;> rfl

/-- What `restore` checks, and that no identifier is longer than a machine can count. -/
structure Stored (host : Host) (schedules : Schedules) (r : EventRegistry) : Prop where
  valid : ∀ v ∈ r, validStored host schedules v = true
  ids : (r.map EventOccurrence.id).Nodup
  length : r.length ≤ maxEventOccurrences
  pending : unclaimed r ≤ maxPendingEvents

theorem exists_of_fresh {r' : EventRegistry} (h : r'.map fresh = r.map fresh) {v : EventOccurrence} (hv : v ∈ r') :
    ∃ u ∈ r, fresh u = fresh v := by
  have hmem : fresh v ∈ r.map fresh := h ▸ List.mem_map_of_mem hv
  exact List.mem_map.mp hmem

theorem map_eq_of_fresh {r' : EventRegistry} {α : Type} (g : EventOccurrence → α) (hg : ∀ v, g (fresh v) = g v)
    (h : r'.map fresh = r.map fresh) : r'.map g = r.map g := by
  have hmap : ∀ l : EventRegistry, l.map g = (l.map fresh).map g := by
    intro l
    rw [List.map_map]
    exact List.map_congr_left fun v _ => (hg v).symm
  rw [hmap r', h, ← hmap r]

theorem Stored.refresh (h : Stored host schedules r) {r' : EventRegistry} (hfresh : r'.map fresh = r.map fresh)
    (hpending : unclaimed r' ≤ unclaimed r) : Stored host schedules r' := by
  refine ⟨?_, ?_, ?_, hpending.trans h.pending⟩
  · intro v hv
    obtain ⟨u, hu, heq⟩ := exists_of_fresh hfresh hv
    have hvalid : validStored host schedules (fresh u) = true := h.valid u hu
    rw [heq] at hvalid
    exact hvalid
  · rw [map_eq_of_fresh EventOccurrence.id (fun _ => rfl) hfresh]
    exact h.ids
  · have hlen := congrArg List.length hfresh
    rw [List.length_map, List.length_map] at hlen
    rw [hlen]
    exact h.length

theorem Stored.filter (h : Stored host schedules r) (p : EventOccurrence → Bool) : Stored host schedules (r.filter p) :=
  ⟨fun v hv => h.valid v (List.mem_of_mem_filter hv), h.ids.sublist (List.filter_sublist.map _),
    (List.length_filter_le p r).trans h.length, List.filter_sublist.countP_le.trans h.pending⟩

theorem unclaimed_map_le {f : EventOccurrence → EventOccurrence} (hf : ∀ v, v.claimed = true → (f v).claimed = true) :
    unclaimed (r.map f) ≤ unclaimed r := by
  unfold unclaimed
  rw [List.countP_map]
  refine List.countP_mono_left fun v _ hv => ?_
  by_contra hclaimed
  have := hf v (by simpa using hclaimed)
  simp [this] at hv

theorem claimed_retire {v : EventOccurrence} (h : v.claimed = true) : (retire schedules v).claimed = true := by
  unfold retire
  split_ifs
  · rfl
  · exact h

/-- The registry without the automations that are gone, and with the stale occurrences retired. -/
def tidied (schedules : Schedules) (r : EventRegistry) : EventRegistry :=
  (r.filter fun item => schedules.contains item.scheduleId).map (retire schedules)

theorem Stored.tidy (h : Stored host schedules r) : Stored host schedules (tidied schedules r) := by
  refine (h.filter _).refresh ?_ (unclaimed_map_le fun _ => claimed_retire)
  unfold tidied
  rw [List.map_map]
  exact List.map_congr_left fun v _ => fresh_retire v

theorem restore_stored (h : Stored host schedules r) :
    EventRegistry.restore host r.snapshot schedules = .ok (tidied schedules r) := by
  obtain ⟨acc, hloop, hids, hacc⟩ := foldlM_total (f := restoreItem host schedules) (l := r) (b := ([], []))
    (P := fun pre acc => acc.1 = (pre.map EventOccurrence.id).reverse ∧ acc.2 = pre.map (retire schedules))
    ⟨rfl, rfl⟩ (by
      intro pre v post acc hr hP
      have hnew : v.id ∉ acc.1 := by
        have hnodup := h.ids
        rw [hr, List.map_append, List.map_cons] at hnodup
        rw [hP.1, List.mem_reverse]
        exact fun hmem => List.disjoint_of_nodup_append hnodup hmem List.mem_cons_self
      have hvalid := h.valid v (by rw [hr]; simp)
      refine ⟨(v.id :: acc.1, acc.2 ++ [retire schedules v]), ?_, ?_, ?_⟩
      · unfold restoreItem
        rw [bind_eq_ok]
        exact ⟨(), ensure_eq_ok.mpr ⟨hvalid, hnew⟩, rfl⟩
      · simp [hP.1]
      · simp [hP.2])
  have hkept : acc.2.filter (fun item => schedules.contains item.scheduleId) = tidied schedules r := by
    unfold tidied
    rw [hacc, List.filter_map]
    refine congrArg _ (List.filter_congr fun v _ => ?_)
    simp
  unfold EventRegistry.restore EventRegistry.snapshot
  simp only [bind_eq_ok, ensure_eq_ok]
  refine ⟨(), h.length, acc, hloop, (), ?_, ?_⟩
  · rw [hkept]
    exact h.tidy.pending
  · rw [hkept]
    rfl

/-! ## Enqueues -/

/-- Automations under their own identifiers; neither these nor the agents' are blank, as every automation is made. -/
structure Registered (schedules : Schedules) : Prop where
  keyed : ∀ (id : String) (s : ScheduledPromptRecord), schedules[id]? = some s → s.id = id
  named : ∀ (id : String) (s : ScheduledPromptRecord), schedules[id]? = some s →
    trimmedEmpty s.id = false ∧ trimmedEmpty s.agentId = false ∧ s.id.utf8ByteSize < 2 ^ 64

/-- The automations that an enqueue gives an occurrence. -/
def receivers (host : Host) (r : EventRegistry) (values : List ScheduledPromptRecord) (q : Request) :
    List ScheduledPromptRecord :=
  (values.filter fun s => s.agentId == q.agentId && s.listens q.topic).filter fun s =>
    !(r.any fun v => v.id == occurrenceId host s.id q.eventId) && s.enabled

theorem foldl_addOne (l : List ScheduledPromptRecord) (acc : ℕ × List EventOccurrence) :
    (l.foldl (addOne host r q) acc).2 =
      acc.2 ++ (l.filter fun s => !(r.any fun v => v.id == occurrenceId host s.id q.eventId) && s.enabled).map
        (occurrence host q) := by
  induction l generalizing acc with
  | nil => simp
  | cons s l ih =>
    rw [List.foldl_cons, ih]
    unfold addOne
    by_cases hhas : (r.any fun v => v.id == occurrenceId host s.id q.eventId) = true
    · simp [hhas]
    · by_cases hon : s.enabled = true
      · simp [hhas, hon]
      · simp [hhas, hon]

/-- Everything that an accepted enqueue has checked and done. -/
structure Enqueued (host : Host) (schedules : Schedules) (values : List ScheduledPromptRecord) (q : Request)
    (r : EventRegistry) (admission : EventAdmission) (r' : EventRegistry) : Prop where
  topic : validTopic q.topic = true
  eventId : validEventId q.eventId = true
  atMs : q.atMs ≠ 0
  payload : validatePayload host q.payload = .ok ()
  same : ∀ v ∈ r, v.agentId = q.agentId → v.eventId = q.eventId → v.topic = q.topic ∧ v.payload = q.payload
  accepted : admission.accepted = (receivers host (tidied schedules r) values q).length
  after : r' = tidied schedules r ++ (receivers host (tidied schedules r) values q).map (occurrence host q)
  length : r'.length ≤ maxEventOccurrences
  pending : unclaimed r' ≤ maxPendingEvents

theorem enqueue_eq_ok {r' : EventRegistry} {admission : EventAdmission}
    (h : (enqueue host schedules values q).call r = (.ok admission, r')) :
    Enqueued host schedules values q r admission r' := by
  unfold enqueue at h
  rw [Method.get_bind_call] at h
  rcases hinner : (enqueueInner host schedules values q).call r with ⟨result, next⟩
  rw [hinner] at h
  simp only [Method.check_bind_eq_ok, Method.set_bind_call, Method.call_pure, Prod.mk.injEq, Except.ok.injEq] at h
  obtain ⟨_, rfl, rfl, rfl⟩ := h
  unfold enqueueInner at hinner
  simp only [Method.check_bind_eq_ok, Method.get_bind_call, Method.set_bind_call, Method.call_pure, ensure_eq_ok,
    Prod.mk.injEq, Except.ok.injEq] at hinner
  obtain ⟨_, ⟨htopic, hevent, hat⟩, _, hpayload, _, hconflict, _, hpending, _, hlength, rfl, rfl⟩ := hinner
  -- The occurrences that the loop adds are those of the receivers.
  have hadded : ((values.filter fun s => s.agentId == q.agentId && s.listens q.topic).foldl
      (addOne host (tidied schedules r) q) (0, [])).2 =
        (receivers host (tidied schedules r) values q).map (occurrence host q) :=
    (foldl_addOne _ _).trans (List.nil_append _)
  have hsum : unclaimed (tidied schedules r ++ (receivers host (tidied schedules r) values q).map (occurrence host q)) =
      unclaimed (tidied schedules r) + (receivers host (tidied schedules r) values q).length := by
    unfold unclaimed
    rw [List.countP_append, List.countP_map]
    exact congrArg _ (List.countP_eq_length.mpr fun s _ => rfl)
  have hcount := congrArg List.length hadded
  rw [List.length_map] at hcount
  have hpending : unclaimed (tidied schedules r) + ((values.filter fun s => s.agentId == q.agentId && s.listens q.topic).foldl
      (addOne host (tidied schedules r) q) (0, [])).2.length ≤ maxPendingEvents := hpending
  have hlength : (tidied schedules r).length + ((values.filter fun s => s.agentId == q.agentId && s.listens q.topic).foldl
      (addOne host (tidied schedules r) q) (0, [])).2.length ≤ maxEventOccurrences := hlength
  rw [hcount] at hpending hlength
  refine ⟨htopic, hevent, hat, hpayload, ?_, hcount, ?_, ?_, ?_⟩
  · intro v hv hagent hev
    have hnot := List.any_eq_false.mp hconflict v hv
    simp only [hagent, hev, beq_self_eq_true, Bool.true_and, Bool.or_eq_true, bne_iff_ne, ne_eq, not_or, not_not] at hnot
    exact hnot
  · exact congrArg (tidied schedules r ++ ·) hadded
  · show (tidied schedules r ++ _).length ≤ maxEventOccurrences
    rw [List.length_append]
    exact hcount ▸ hlength
  · have hafter := congrArg (fun added => unclaimed (tidied schedules r ++ added)) hadded
    exact (hafter.trans hsum).le.trans hpending

theorem enqueue_refused {r' : EventRegistry} {e : ScheduleError}
    (h : (enqueue host schedules values q).call r = (.error e, r')) : r' = r := by
  have hguard : Method.Guarded (fun _ => true) (enqueue host schedules values q) := by
    unfold enqueue
    exact .get fun r => .check fun _ => .assign rfl _
  exact hguard.refused h

theorem enqueue_conflict {v : EventOccurrence} (hv : v ∈ r) (hagent : v.agentId = q.agentId) (hevent : v.eventId = q.eventId)
    (hdiffers : v.topic ≠ q.topic ∨ v.payload ≠ q.payload) (htopic : validTopic q.topic = true)
    (hid : validEventId q.eventId = true) (hat : q.atMs ≠ 0) (hpayload : validatePayload host q.payload = .ok ()) :
    (enqueue host schedules values q).call r =
      (.error (.conflict "This eventId already names a different event"), r) := by
  have hconflict : (r.any fun v =>
      v.agentId == q.agentId && v.eventId == q.eventId && (v.topic != q.topic || v.payload != q.payload)) = true := by
    refine List.any_eq_true.mpr ⟨v, hv, ?_⟩
    simpa [hagent, hevent] using hdiffers
  have hinner : (enqueueInner host schedules values q).call r =
      (.error (.conflict "This eventId already names a different event"), r) := by
    unfold enqueueInner
    rw [(ensure_eq_ok (u := ())).mpr ⟨htopic, hid, hat⟩, Method.check_ok_bind_call, hpayload, Method.check_ok_bind_call,
      Method.get_bind_call]
    simp only [hconflict]
    rfl
  unfold enqueue
  rw [Method.get_bind_call, hinner]
  rfl

theorem Stored.enqueued (hsha : Function.Injective host.sha256) (hreg : Registered schedules)
    (hvalues : values.Perm (vals schedules)) (h : Stored host schedules r) {admission : EventAdmission} {r' : EventRegistry}
    (he : Enqueued host schedules values q r admission r') : Stored host schedules r' := by
  have hreceiver : ∀ s ∈ receivers host (tidied schedules r) values q, schedules[s.id]? = some s ∧
      s.agentId = q.agentId ∧ s.listens q.topic = true ∧ ∀ v ∈ tidied schedules r, v.id ≠ occurrenceId host s.id q.eventId := by
    intro s hs
    obtain ⟨hs, hnew⟩ := List.mem_filter.mp hs
    obtain ⟨hs, hwaits⟩ := List.mem_filter.mp hs
    obtain ⟨id, hid⟩ := mem_vals.mp (hvalues.mem_iff.mp hs)
    rw [Bool.and_eq_true, beq_iff_eq] at hwaits
    rw [Bool.and_eq_true, Bool.not_eq_true', List.any_eq_false] at hnew
    refine ⟨?_, hwaits.1, hwaits.2, fun v hv => by simpa using hnew.1 v hv⟩
    rw [hreg.keyed id s hid]
    exact hid
  refine ⟨?_, ?_, he.length, he.pending⟩
  · intro v hv
    rw [he.after] at hv
    rcases List.mem_append.mp hv with hv | hv
    · exact h.tidy.valid v hv
    · obtain ⟨s, hs, rfl⟩ := List.mem_map.mp hv
      obtain ⟨hget, hagent, -, -⟩ := hreceiver s hs
      obtain ⟨hid, hag, -⟩ := hreg.named s.id s hget
      rw [hagent] at hag
      have hok : (validatePayload host q.payload).isOk = true := by
        rw [he.payload]
        rfl
      have hmine : (schedules[s.id]?.any fun s => s.agentId != q.agentId) = false := by
        rw [hget, Option.any_some, hagent]
        exact bne_self_eq_false' _
      show (validTopic q.topic && validEventId q.eventId && occurrenceId host s.id q.eventId == occurrenceId host s.id q.eventId &&
        q.atMs != 0 && !trimmedEmpty q.agentId && !trimmedEmpty s.id && (validatePayload host q.payload).isOk &&
        !(schedules[s.id]?.any fun s => s.agentId != q.agentId)) = true
      rw [he.topic, he.eventId, hag, hid, hok, hmine, beq_self_eq_true, bne_iff_ne.mpr he.atMs]
      rfl
  · rw [he.after, List.map_append, List.nodup_append]
    refine ⟨h.tidy.ids, ?_, ?_⟩
    · rw [List.map_map]
      have hids : ((receivers host (tidied schedules r) values q).map ScheduledPromptRecord.id).Nodup := by
        have hall : (values.map ScheduledPromptRecord.id).Nodup :=
          (hvalues.map _).nodup_iff.mpr (nodup_key_vals hreg.keyed)
        exact hall.sublist ((List.filter_sublist.trans List.filter_sublist).map _)
      refine List.Nodup.map_on ?_ hids.of_map
      intro s hs s' hs' heq
      have hsize := (hreg.named s.id s (hreceiver s hs).1).2.2
      have hsize' := (hreg.named s'.id s' (hreceiver s' hs').1).2.2
      have hid := (occurrenceId_injective hsha hsize hsize' heq).1
      exact List.inj_on_of_nodup_map hids hs hs' hid
    · intro x hx y hy
      obtain ⟨v, hv, rfl⟩ := List.mem_map.mp hx
      rw [List.map_map] at hy
      obtain ⟨s, hs, rfl⟩ := List.mem_map.mp hy
      exact (hreceiver s hs).2.2.2 v hv

/-! ## Runs -/

/-- The registry and the automations, with what has happened: the identifiers of automations that were ever in use, the
automations whose occurrences were removed, and the occurrences that were accepted and claimed, in order. -/
structure World where
  registry : EventRegistry
  schedules : Schedules
  known : List String
  removed : List String
  accepted : List EventOccurrence
  claims : List EventOccurrence

/-- An operation on the registry, or an edit of the automations. -/
inductive Op
  | enqueue (values : List ScheduledPromptRecord) (q : Request)
  | claim (id : String)
  | discardPending (scheduleId : String)
  | removeSchedule (scheduleId : String)
  | restart
  | edit (schedules : Schedules)

namespace World

def new (schedules : Schedules) : World :=
  { registry := [], schedules, known := schedules.keys, removed := [], accepted := [], claims := [] }

/-- One step; the occurrences that an enqueue accepts are the last ones of the registry. -/
def step (host : Host) (w : World) : Op → World
  | .enqueue values q =>
    match (EventRegistry.enqueue host w.schedules values q).call w.registry with
    | (.ok admission, r) =>
      { w with registry := r, accepted := w.accepted ++ r.drop (r.length - admission.accepted) }
    | (.error _, r) => { w with registry := r }
  | .claim id =>
    let claimed := EventRegistry.claim id w.registry
    { w with registry := claimed.2, claims := w.claims ++ claimed.1.toList }
  | .discardPending scheduleId => { w with registry := w.registry.discardPending scheduleId }
  | .removeSchedule scheduleId =>
    { w with registry := w.registry.removeSchedule scheduleId, removed := w.removed ++ [scheduleId] }
  | .restart =>
    match EventRegistry.restore host w.registry.snapshot w.schedules with
    | .ok r => { w with registry := r }
    | .error _ => w
  | .edit schedules => { w with schedules, known := w.known ++ schedules.keys }

/-- The hash map yields each automation once; an edit changes no agent and takes no identifier again. -/
def Allowed (w : World) : Op → Prop
  | .enqueue values _ => values.Perm (vals w.schedules)
  | .edit schedules => Registered schedules ∧
      (∀ (id : String) (a b : ScheduledPromptRecord), w.schedules[id]? = some a → schedules[id]? = some b →
        b.agentId = a.agentId) ∧
      ∀ id, id ∈ schedules → id ∈ w.schedules ∨ id ∉ w.known
  | _ => True

/-- The automation is registered and its occurrences were never removed. -/
def Stays (w : World) (scheduleId : String) : Prop := scheduleId ∈ w.schedules ∧ scheduleId ∉ w.removed

def of (scheduleId : String) (l : List EventOccurrence) : List EventOccurrence :=
  l.filter fun v => v.scheduleId == scheduleId

end World

structure Kept (host : Host) (w : World) : Prop where
  registered : Registered w.schedules
  stored : Stored host w.schedules w.registry
  known : (∀ id ∈ w.schedules, id ∈ w.known) ∧ (∀ v ∈ w.registry, v.scheduleId ∈ w.known) ∧
    (∀ v ∈ w.accepted, v.scheduleId ∈ w.known) ∧ ∀ v ∈ w.claims, v.scheduleId ∈ w.known
  order : ∀ sid, w.Stays sid → World.of sid (w.registry.map fresh) = World.of sid w.accepted
  once : ∀ sid, w.Stays sid → ((World.of sid w.claims).map EventOccurrence.eventId).Nodup
  spent : ∀ c ∈ w.claims, w.Stays c.scheduleId →
    ∃ v ∈ w.registry, v.scheduleId = c.scheduleId ∧ v.eventId = c.eventId ∧ v.claimed = true

variable {w : World}

theorem same_of_fresh {u v : EventOccurrence} (h : fresh u = fresh v) :
    u.scheduleId = v.scheduleId ∧ u.eventId = v.eventId := by
  have hsid : (fresh u).scheduleId = (fresh v).scheduleId := by rw [h]
  have hevent : (fresh u).eventId = (fresh v).eventId := by rw [h]
  exact ⟨hsid, hevent⟩

theorem of_fresh {r' : EventRegistry} (sid : String) (h : r'.map fresh = r.map fresh) :
    World.of sid (r'.map fresh) = World.of sid (r.map fresh) := by
  rw [h]

theorem Kept.refresh (h : Kept host w) {r' : EventRegistry} (hfresh : r'.map fresh = w.registry.map fresh)
    (hpending : unclaimed r' ≤ unclaimed w.registry)
    (hspent : ∀ v ∈ w.registry, v.claimed = true → ∃ u ∈ r', fresh u = fresh v ∧ u.claimed = true) :
    Kept host { w with registry := r' } := by
  refine ⟨h.registered, h.stored.refresh hfresh hpending, ⟨h.known.1, ?_, h.known.2.2⟩, ?_, h.once, ?_⟩
  · intro v hv
    obtain ⟨u, hu, heq⟩ := exists_of_fresh hfresh hv
    rw [← (same_of_fresh heq).1]
    exact h.known.2.1 u hu
  · intro sid hstays
    rw [← h.order sid hstays]
    exact of_fresh sid hfresh
  · intro c hc hstays
    obtain ⟨v, hv, hsid, hevent, hclaimed⟩ := h.spent c hc hstays
    obtain ⟨u, hu, heq, hu'⟩ := hspent v hv hclaimed
    obtain ⟨hsid', hevent'⟩ := same_of_fresh heq
    exact ⟨u, hu, hsid'.trans hsid, hevent'.trans hevent, hu'⟩

theorem Kept.map (h : Kept host w) {f : EventOccurrence → EventOccurrence} (hfresh : ∀ v, fresh (f v) = fresh v)
    (hclaimed : ∀ v, v.claimed = true → (f v).claimed = true) : Kept host { w with registry := w.registry.map f } := by
  refine h.refresh ?_ (unclaimed_map_le hclaimed) fun v hv hv' => ⟨f v, List.mem_map_of_mem hv, hfresh v, hclaimed v hv'⟩
  rw [List.map_map]
  exact List.map_congr_left fun v _ => hfresh v

theorem Kept.tidy (h : Kept host w) : Kept host { w with registry := tidied w.schedules w.registry } := by
  have hkept : Kept host { w with registry := w.registry.filter fun item => w.schedules.contains item.scheduleId } := by
    refine ⟨h.registered, h.stored.filter _, ⟨h.known.1, ?_, h.known.2.2⟩, ?_, h.once, ?_⟩
    · exact fun v hv => h.known.2.1 v (List.mem_of_mem_filter hv)
    · intro sid hstays
      rw [← h.order sid hstays]
      show World.of sid ((w.registry.filter _).map fresh) = _
      unfold World.of
      rw [List.filter_map, List.filter_map, List.filter_filter]
      refine congrArg _ (List.filter_congr fun v _ => ?_)
      by_cases hsid : v.scheduleId = sid
      · have hin : w.schedules.contains sid = true := Std.ExtTreeMap.contains_iff_mem.mpr hstays.1
        simp [fresh, hsid, hin]
      · simp [fresh, hsid]
    · intro c hc hstays
      obtain ⟨v, hv, hsid, hevent, hclaimed⟩ := h.spent c hc hstays
      refine ⟨v, List.mem_filter.mpr ⟨hv, ?_⟩, hsid, hevent, hclaimed⟩
      rw [hsid]
      exact Std.ExtTreeMap.contains_iff_mem.mpr hstays.1
  exact hkept.map fresh_retire fun _ => claimed_retire

theorem claim_spec (id : String) (r : EventRegistry) :
    ((claim id r).2.map fresh = r.map fresh ∧ unclaimed (claim id r).2 ≤ unclaimed r ∧
      ∀ v ∈ r, v.claimed = true → ∃ u ∈ (claim id r).2, fresh u = fresh v ∧ u.claimed = true) ∧
    ∀ c, (claim id r).1 = some c → c ∈ (claim id r).2 ∧ c.claimed = true ∧
      ∃ v ∈ r, fresh v = fresh c ∧ v.id = id ∧ v.claimed = false := by
  induction r with
  | nil => simp [claim, unclaimed]
  | cons v r ih =>
    obtain ⟨⟨hfresh, hpending, hspent⟩, hclaim⟩ := ih
    unfold claim
    by_cases hv : (v.id == id && !v.claimed) = true
    · rw [if_pos hv]
      rw [Bool.and_eq_true, beq_iff_eq, Bool.not_eq_true'] at hv
      refine ⟨⟨rfl, ?_, ?_⟩, ?_⟩
      · unfold unclaimed
        rw [List.countP_cons, List.countP_cons, if_neg (by simp)]
        omega
      · intro u hu hu'
        rcases List.mem_cons.mp hu with rfl | hu
        · rw [hv.2] at hu'
          cases hu'
        · exact ⟨u, List.mem_cons_of_mem _ hu, rfl, hu'⟩
      · intro c hc
        cases hc
        exact ⟨List.mem_cons_self, rfl, v, List.mem_cons_self, rfl, hv.1, hv.2⟩
    · rw [if_neg hv]
      refine ⟨⟨?_, ?_, ?_⟩, ?_⟩
      · rw [List.map_cons, List.map_cons, hfresh]
      · unfold unclaimed at hpending ⊢
        rw [List.countP_cons, List.countP_cons]
        omega
      · intro u hu hu'
        rcases List.mem_cons.mp hu with rfl | hu
        · exact ⟨u, List.mem_cons_self, rfl, hu'⟩
        · obtain ⟨x, hx, heq, hx'⟩ := hspent u hu hu'
          exact ⟨x, List.mem_cons_of_mem _ hx, heq, hx'⟩
      · intro c hc
        obtain ⟨hin, hclaimed, u, hu, heq, hid, hfree⟩ := hclaim c hc
        exact ⟨List.mem_cons_of_mem _ hin, hclaimed, u, List.mem_cons_of_mem _ hu, heq, hid, hfree⟩

theorem Stored.id_eq (h : Stored host schedules r) {v : EventOccurrence} (hv : v ∈ r) :
    v.id = occurrenceId host v.scheduleId v.eventId := by
  have hvalid := h.valid v hv
  unfold validStored at hvalid
  simp only [Bool.and_eq_true, beq_iff_eq] at hvalid
  tauto

theorem Stored.unique (h : Stored host schedules r) {u v : EventOccurrence} (hu : u ∈ r) (hv : v ∈ r)
    (hsid : u.scheduleId = v.scheduleId) (hevent : u.eventId = v.eventId) : u = v := by
  refine List.inj_on_of_nodup_map h.ids hu hv ?_
  rw [h.id_eq hu, h.id_eq hv, hsid, hevent]

theorem Kept.claim (h : Kept host w) (id : String) : Kept host (w.step host (.claim id)) := by
  obtain ⟨⟨hfresh, hpending, hspent⟩, hclaim⟩ := claim_spec id w.registry
  have hkept := h.refresh hfresh hpending hspent
  show Kept host { w with registry := (EventRegistry.claim id w.registry).2
                          claims := w.claims ++ (EventRegistry.claim id w.registry).1.toList }
  rcases hc : (EventRegistry.claim id w.registry).1 with _ | c
  · rw [show w.claims ++ (none : Option EventOccurrence).toList = w.claims from List.append_nil _]
    exact hkept
  · obtain ⟨hin, hclaimed, v, hv, heq, hid, hfree⟩ := hclaim c hc
    obtain ⟨hsid, hevent⟩ := same_of_fresh heq
    refine ⟨hkept.registered, hkept.stored, ⟨hkept.known.1, hkept.known.2.1, hkept.known.2.2.1, ?_⟩, hkept.order, ?_, ?_⟩
    · intro x hx
      rcases List.mem_append.mp hx with hx | hx
      · exact h.known.2.2.2 x hx
      · rw [List.mem_singleton.mp hx, ← hsid]
        exact h.known.2.1 v hv
    · -- An earlier claim of the same event would have left the occurrence claimed.
      intro sid hstays
      show ((World.of sid (w.claims ++ [c])).map EventOccurrence.eventId).Nodup
      unfold World.of
      rw [List.filter_append]
      by_cases hmine : c.scheduleId = sid
      · rw [List.filter_cons_of_pos (by simpa using hmine), List.filter_nil, List.map_append, List.map_singleton,
          List.nodup_append]
        refine ⟨h.once sid hstays, List.nodup_singleton _, ?_⟩
        intro x hx y hy
        rw [List.mem_singleton.mp hy]
        rintro rfl
        obtain ⟨c', hc', hsame⟩ := List.mem_map.mp hx
        obtain ⟨hc', hsid'⟩ := List.mem_filter.mp hc'
        rw [beq_iff_eq] at hsid'
        have hstays' : w.Stays c'.scheduleId := by
          rw [hsid']
          exact hstays
        obtain ⟨u, hu, husid, huevent, huclaimed⟩ := h.spent c' hc' hstays'
        have huv : u = v := h.stored.unique hu hv (by rw [husid, hsid', hsid, hmine]) (by rw [huevent, hsame, hevent])
        rw [huv, hfree] at huclaimed
        cases huclaimed
      · rw [List.filter_cons_of_neg (by simpa using hmine), List.filter_nil, List.append_nil]
        exact h.once sid hstays
    · intro x hx hstays
      rcases List.mem_append.mp hx with hx | hx
      · exact hkept.spent x hx hstays
      · rw [List.mem_singleton.mp hx]
        exact ⟨c, hin, rfl, rfl, hclaimed⟩

theorem Kept.enqueue (hsha : Function.Injective host.sha256) (h : Kept host w)
    (hvalues : values.Perm (vals w.schedules)) : Kept host (w.step host (.enqueue values q)) := by
  rcases hcall : (EventRegistry.enqueue host w.schedules values q).call w.registry with ⟨e | admission, r'⟩
  · simp only [World.step, hcall]
    rw [enqueue_refused hcall]
    exact h
  · have he := enqueue_eq_ok hcall
    have hstored := h.stored.enqueued hsha h.registered hvalues he
    have htidy := h.tidy
    have hadded : r'.drop (r'.length - admission.accepted) =
        (receivers host (tidied w.schedules w.registry) values q).map (occurrence host q) := by
      rw [he.after, he.accepted, List.length_append, List.length_map, Nat.add_sub_cancel]
      exact List.drop_left
    simp only [World.step, hcall, hadded]
    have hnew : ∀ v ∈ (receivers host (tidied w.schedules w.registry) values q).map (occurrence host q),
        v.scheduleId ∈ w.known := by
      intro v hv
      obtain ⟨s, hs, rfl⟩ := List.mem_map.mp hv
      have hs := List.mem_of_mem_filter (List.mem_of_mem_filter hs)
      obtain ⟨id, hid⟩ := mem_vals.mp (hvalues.mem_iff.mp hs)
      show s.id ∈ w.known
      rw [h.registered.keyed id s hid]
      exact h.known.1 id (mem_of_getElem? hid)
    refine ⟨h.registered, hstored, ⟨h.known.1, ?_, ?_, h.known.2.2.2⟩, ?_, h.once, ?_⟩
    · intro v hv
      rw [he.after] at hv
      exact (List.mem_append.mp hv).elim (htidy.known.2.1 v) (hnew v)
    · exact fun v hv => (List.mem_append.mp hv).elim (h.known.2.2.1 v) (hnew v)
    · intro sid hstays
      have horder := htidy.order sid hstays
      show World.of sid (r'.map fresh) = World.of sid (w.accepted ++ _)
      rw [he.after, List.map_append, List.map_map]
      unfold World.of at horder ⊢
      rw [List.filter_append, List.filter_append, horder]
      rfl
    · intro c hc hstays
      obtain ⟨v, hv, hrest⟩ := htidy.spent c hc hstays
      refine ⟨v, ?_, hrest⟩
      rw [he.after]
      exact List.mem_append_left _ hv

theorem Kept.edit (h : Kept host w) {schedules : Schedules} (hop : w.Allowed (.edit schedules)) :
    Kept host (w.step host (.edit schedules)) := by
  obtain ⟨hreg, hagents, hnew⟩ := hop
  have hknown : ∀ {id}, id ∈ w.known → id ∈ schedules → id ∈ w.schedules := fun hid hin =>
    (hnew _ hin).resolve_right fun hnot => hnot hid
  have hstored : Stored host schedules w.registry := by
    refine ⟨fun v hv => ?_, h.stored.ids, h.stored.length, h.stored.pending⟩
    have hvalid := h.stored.valid v hv
    unfold validStored at hvalid ⊢
    rw [Bool.and_eq_true] at hvalid ⊢
    refine ⟨hvalid.1, ?_⟩
    rcases hs : schedules[v.scheduleId]? with _ | s
    · rfl
    · obtain ⟨old, hold⟩ := Option.isSome_iff_exists.mp
        (mem_iff_getElem?_isSome.mp (hknown (h.known.2.1 v hv) (mem_of_getElem? hs)))
      rw [hold] at hvalid
      rw [Option.any_some, hagents _ old s hold hs]
      exact hvalid.2
  have hstays : ∀ sid, ({ w with schedules, known := w.known ++ schedules.keys } : World).Stays sid →
      w.Stays sid ∨ sid ∉ w.known := fun sid hs => (hnew sid hs.1).imp (fun hin => ⟨hin, hs.2⟩) fun hnot => hnot
  have hempty : ∀ sid l, sid ∉ w.known → (∀ v ∈ l, v.scheduleId ∈ w.known) → World.of sid l = [] := by
    intro sid l hsid hl
    refine List.filter_eq_nil_iff.mpr fun v hv => ?_
    rw [beq_iff_eq]
    rintro rfl
    exact hsid (hl v hv)
  refine ⟨hreg, hstored, ⟨?_, ?_, ?_, ?_⟩, ?_, ?_, ?_⟩
  · exact fun id hid => List.mem_append_right _ (Std.ExtTreeMap.mem_keys.mpr hid)
  · exact fun v hv => List.mem_append_left _ (h.known.2.1 v hv)
  · exact fun v hv => List.mem_append_left _ (h.known.2.2.1 v hv)
  · exact fun v hv => List.mem_append_left _ (h.known.2.2.2 v hv)
  · intro sid hs
    rcases hstays sid hs with hs | hnot
    · exact h.order sid hs
    · show World.of sid (w.registry.map fresh) = World.of sid w.accepted
      rw [hempty sid w.accepted hnot h.known.2.2.1, hempty sid _ hnot]
      intro v hv
      obtain ⟨u, hu, rfl⟩ := List.mem_map.mp hv
      exact h.known.2.1 u hu
  · intro sid hs
    rcases hstays sid hs with hs | hnot
    · exact h.once sid hs
    · show ((World.of sid w.claims).map EventOccurrence.eventId).Nodup
      rw [hempty sid w.claims hnot h.known.2.2.2]
      exact List.nodup_nil
  · intro c hc hs
    rcases hstays c.scheduleId hs with hs | hnot
    · exact h.spent c hc hs
    · exact absurd (h.known.2.2.2 c hc) hnot

theorem schedules_step {op : Op} (hop : ∀ schedules, op ≠ .edit schedules) : (w.step host op).schedules = w.schedules := by
  cases op with
  | enqueue values q =>
    rcases hcall : (EventRegistry.enqueue host w.schedules values q).call w.registry with ⟨e | admission, r'⟩ <;>
      simp only [World.step, hcall]
  | restart =>
    rcases hrestore : EventRegistry.restore host w.registry.snapshot w.schedules with e | r' <;>
      simp only [World.step, hrestore]
  | edit schedules => exact absurd rfl (hop schedules)
  | _ => rfl

theorem Kept.removeSchedule (h : Kept host w) (sid : String) : Kept host (w.step host (.removeSchedule sid)) := by
  have hstays : ∀ other, ({ w with removed := w.removed ++ [sid] } : World).Stays other → w.Stays other ∧ other ≠ sid := by
    intro other hs
    have hnot : other ∉ w.removed ++ [sid] := hs.2
    rw [List.mem_append, List.mem_singleton, not_or] at hnot
    exact ⟨⟨hs.1, hnot.1⟩, hnot.2⟩
  refine ⟨h.registered, h.stored.filter _, ⟨h.known.1, ?_, h.known.2.2⟩, ?_, ?_, ?_⟩
  · exact fun v hv => h.known.2.1 v (List.mem_of_mem_filter hv)
  · intro other hs
    obtain ⟨hs, hne⟩ := hstays other hs
    show World.of other ((w.registry.filter fun v => v.scheduleId != sid).map fresh) = World.of other w.accepted
    rw [← h.order other hs]
    unfold World.of
    rw [List.filter_map, List.filter_map, List.filter_filter]
    refine congrArg _ (List.filter_congr fun v _ => ?_)
    by_cases hv : v.scheduleId = other
    · simp [fresh, hv, hne]
    · simp [fresh, hv]
  · exact fun other hs => h.once other (hstays other hs).1
  · intro c hc hs
    obtain ⟨hs, hne⟩ := hstays c.scheduleId hs
    obtain ⟨v, hv, hsid, hrest⟩ := h.spent c hc hs
    refine ⟨v, List.mem_filter.mpr ⟨hv, ?_⟩, hsid, hrest⟩
    rw [hsid, bne_iff_ne]
    exact hne

theorem kept_new (h : Registered schedules) : Kept host (World.new schedules) := by
  refine ⟨h, ⟨?_, List.nodup_nil, ?_, ?_⟩, ⟨?_, ?_, ?_, ?_⟩, fun _ _ => rfl, fun _ _ => List.nodup_nil, ?_⟩
  · exact fun v hv => absurd hv List.not_mem_nil
  · exact Nat.zero_le _
  · exact Nat.zero_le _
  · exact fun id hid => Std.ExtTreeMap.mem_keys.mpr hid
  · exact fun v hv => absurd hv List.not_mem_nil
  · exact fun v hv => absurd hv List.not_mem_nil
  · exact fun v hv => absurd hv List.not_mem_nil
  · exact fun c hc => absurd hc List.not_mem_nil

theorem Kept.step (hsha : Function.Injective host.sha256) (h : Kept host w) (op : Op) (hop : w.Allowed op) :
    Kept host (w.step host op) := by
  cases op with
  | enqueue values q => exact h.enqueue hsha hop
  | claim id => exact h.claim id
  | discardPending sid =>
    refine h.map ?_ ?_
    · intro v
      split_ifs <;> rfl
    · intro v hv
      split_ifs
      · rfl
      · exact hv
  | removeSchedule sid => exact h.removeSchedule sid
  | restart =>
    simp only [World.step, restore_stored h.stored]
    exact h.tidy
  | edit schedules => exact h.edit hop

theorem Stored.enqueue_same (hsha : Function.Injective host.sha256) (hreg : Registered schedules)
    (hvalues : values.Perm (vals schedules)) (h : Stored host schedules r) {admission : EventAdmission} {r' : EventRegistry}
    (hcall : (EventRegistry.enqueue host schedules values q).call r = (.ok admission, r')) {v : EventOccurrence}
    (hv : v ∈ r) (hsid : v.scheduleId ∈ schedules) {u : EventOccurrence} (hu : u ∈ r')
    (hsame : u.scheduleId = v.scheduleId) (hevent : u.eventId = v.eventId) : u = retire schedules v := by
  have he := enqueue_eq_ok hcall
  have hstored : Stored host schedules r' := h.enqueued hsha hreg hvalues he
  have hin : retire schedules v ∈ r' := by
    rw [he.after]
    refine List.mem_append_left _ (List.mem_map_of_mem (List.mem_filter.mpr ⟨hv, ?_⟩))
    exact Std.ExtTreeMap.contains_iff_mem.mpr hsid
  have hretired : fresh (retire schedules v) = fresh v := fresh_retire v
  obtain ⟨hs, hev⟩ := same_of_fresh hretired
  exact hstored.unique hu hin (hsame.trans hs.symm) (hevent.trans hev.symm)

theorem due_eq (r : EventRegistry) (s : ScheduledPromptRecord) (now : ℕ) :
    due r s now = if blocked s now then none else
      (World.of s.id r).find? fun v => !v.claimed && s.listens v.topic && decide (v.atMs ≤ now) := by
  -- An automation without a topic listens to nothing.
  have hother : (∀ topic, s.trigger ≠ .event topic) → none = if blocked s now then none else
      (World.of s.id r).find? fun v => !v.claimed && s.listens v.topic && decide (v.atMs ≤ now) := by
    intro hne
    have hnothing : (World.of s.id r).find? (fun v => !v.claimed && s.listens v.topic && decide (v.atMs ≤ now)) = none := by
      refine List.find?_eq_none.mpr fun v _ => ?_
      have hnot : s.listens v.topic = false := beq_eq_false_iff_ne.mpr (hne v.topic)
      simp [hnot]
    rw [hnothing]
    split_ifs <;> rfl
  unfold due
  cases htrigger : s.trigger with
  | event topic =>
    have hlistens : ∀ other, s.listens other = (other == topic) := by
      intro other
      unfold ScheduledPromptRecord.listens
      rw [htrigger, Bool.eq_iff_iff, beq_iff_eq, beq_iff_eq, ScheduleTrigger.event.injEq]
      exact eq_comm
    unfold World.of
    rw [List.find?_filter]
    refine congrArg (fun p => if blocked s now then none else r.find? p) (funext fun v => ?_)
    rw [hlistens, Bool.decide_and, Bool.decide_eq_true, Bool.decide_eq_true]
    simp only [Bool.and_assoc]
  | interval ms => exact hother fun _ h => by cases htrigger ▸ h
  | daily hour minute zone => exact hother fun _ h => by cases htrigger ▸ h
  | cron expression zone => exact hother fun _ h => by cases htrigger ▸ h
  | once ms => exact hother fun _ h => by cases htrigger ▸ h

/-- **An event runs at most once for an automation.**  In every state reached from an empty registry: no event of an
automation that stays is claimed twice; a refused enqueue changes nothing; a retained event is refused with another topic
or payload and adds nothing with the same ones; what an automation that stays holds is what it was given, in that order,
and what is due is the first of it that is unclaimed, of the present topic and not in the future; the bounds hold; and a
restart reads the registry back. -/
theorem events_run_once (hsha : Function.Injective host.sha256) (hstart : Registered schedules)
    (hw : Reaches (World.step host) World.Allowed (World.new schedules) w) :
    (∀ sid, w.Stays sid → ((World.of sid w.claims).map EventOccurrence.eventId).Nodup) ∧
      (∀ values q e r', (EventRegistry.enqueue host w.schedules values q).call w.registry = (.error e, r') →
        r' = w.registry) ∧
      (∀ v ∈ w.registry, ∀ (values : List ScheduledPromptRecord) (q : Request),
        v.agentId = q.agentId → v.eventId = q.eventId →
          (v.topic ≠ q.topic ∨ v.payload ≠ q.payload → validTopic q.topic = true → validEventId q.eventId = true →
            q.atMs ≠ 0 → validatePayload host q.payload = .ok () →
            (EventRegistry.enqueue host w.schedules values q).call w.registry =
              (.error (.conflict "This eventId already names a different event"), w.registry)) ∧
          ∀ admission r', values.Perm (vals w.schedules) →
            (EventRegistry.enqueue host w.schedules values q).call w.registry = (.ok admission, r') →
            (v.topic = q.topic ∧ v.payload = q.payload) ∧
              (v.scheduleId ∈ w.schedules → ∀ u ∈ r', u.scheduleId = v.scheduleId → u.eventId = v.eventId →
                u = retire w.schedules v)) ∧
      (∀ (sid : String) (s : ScheduledPromptRecord), w.Stays sid → w.schedules[sid]? = some s →
        World.of sid (w.registry.map fresh) = World.of sid w.accepted ∧
          ∀ now, due w.registry s now = if blocked s now then none else
            (World.of sid w.registry).find? fun v => !v.claimed && s.listens v.topic && decide (v.atMs ≤ now)) ∧
      (unclaimed w.registry ≤ maxPendingEvents ∧ w.registry.length ≤ maxEventOccurrences) ∧
      EventRegistry.restore host w.registry.snapshot w.schedules = .ok (tidied w.schedules w.registry) := by
  have hkept : Kept host w := hw.invariant (kept_new hstart) fun _ op _ h hop => h.step hsha op hop
  refine ⟨hkept.once, fun values q e r' => enqueue_refused, ?_, ?_, ⟨hkept.stored.pending, hkept.stored.length⟩,
    restore_stored hkept.stored⟩
  · intro v hv values q hagent hevent
    refine ⟨fun hdiffers htopic hid hat hpayload => enqueue_conflict hv hagent hevent hdiffers htopic hid hat hpayload, ?_⟩
    intro admission r' hvalues hcall
    refine ⟨(enqueue_eq_ok hcall).same v hv hagent hevent, fun hsid u hu hsame hev => ?_⟩
    exact hkept.stored.enqueue_same hsha hkept.registered hvalues hcall hv hsid hu hsame hev
  · intro sid s hstays hs
    refine ⟨hkept.order sid hstays, fun now => ?_⟩
    rw [← hkept.registered.keyed sid s hs]
    exact due_eq w.registry s now

/-! A webhook that is retried after a restart. -/

namespace Sample

/-- Bytes written out as characters, for a digest without collisions. -/
def sampleHost : Host :=
  { sha256 := fun bytes => String.ofList (bytes.map fun b => Char.ofNat b.toNat), jsonSize := fun _ => 2 }

def automation : ScheduledPromptRecord :=
  { id := "s1", agentId := "a", trigger := .event "files.changed", enabled := true, lastFired := none
    lastSafeOutcome := none, createdBy := .owner }

def sampleSchedules : Schedules := (∅ : Schedules).insert "s1" automation

def webhook : Request :=
  { agentId := "a", eventId := "e1", topic := "files.changed", payload := .object .nil, atMs := 7 }

def received : World := (World.new sampleSchedules).step sampleHost (.enqueue (vals sampleSchedules) webhook)

def ran : World := received.step sampleHost (.claim (occurrenceId sampleHost "s1" "e1"))

def restarted : World := ran.step sampleHost .restart

def retried : World := restarted.step sampleHost (.enqueue (vals sampleSchedules) webhook)

theorem sha256_injective : Function.Injective sampleHost.sha256 := by
  intro l l' h
  have hchars : Function.Injective fun b : UInt8 => Char.ofNat b.toNat := by
    intro b c hbc
    have hvalid : ∀ x : UInt8, (Char.ofNat x.toNat).toNat = x.toNat := by
      intro x
      have hlt := x.toNat_lt
      rw [Char.toNat_ofNat, if_pos (.inl (by omega))]
    have hnat := congrArg Char.toNat hbc
    simp only [hvalid] at hnat
    exact UInt8.toNat_inj.mp hnat
  exact hchars.list_map (String.ofList_injective h)

theorem sampleSchedules_registered : Registered sampleSchedules := by
  have hget : ∀ (id : String) (s : ScheduledPromptRecord), sampleSchedules[id]? = some s → id = "s1" ∧ s = automation := by
    intro id s hs
    have hs : ((∅ : Schedules).insert "s1" automation)[id]? = some s := hs
    rw [getElem?_insert_eq] at hs
    split_ifs at hs with hid
    · exact ⟨hid.symm, (Option.some.inj hs).symm⟩
    · simp at hs
  constructor
  · intro id s hs
    obtain ⟨rfl, rfl⟩ := hget id s hs
    rfl
  · intro id s hs
    obtain ⟨rfl, rfl⟩ := hget id s hs
    decide +kernel

theorem retried_reached : Reaches (World.step sampleHost) World.Allowed (World.new sampleSchedules) retried := by
  have hreceived : Reaches (World.step sampleHost) World.Allowed (World.new sampleSchedules) received :=
    Reaches.start.next (Op.enqueue (vals sampleSchedules) webhook) (List.Perm.refl _)
  have hran : Reaches (World.step sampleHost) World.Allowed (World.new sampleSchedules) ran :=
    hreceived.next (Op.claim (occurrenceId sampleHost "s1" "e1")) trivial
  have hrestarted : Reaches (World.step sampleHost) World.Allowed (World.new sampleSchedules) restarted :=
    hran.next Op.restart trivial
  have hsame : restarted.schedules = sampleSchedules := by
    have hreceived : received.schedules = sampleSchedules := schedules_step fun _ h => Op.noConfusion h
    have hran : ran.schedules = received.schedules := schedules_step fun _ h => Op.noConfusion h
    have hrestarted : restarted.schedules = ran.schedules := schedules_step fun _ h => Op.noConfusion h
    rw [hrestarted, hran, hreceived]
  refine hrestarted.next (Op.enqueue (vals sampleSchedules) webhook) ?_
  show (vals sampleSchedules).Perm (vals restarted.schedules)
  rw [hsame]

end Sample

theorem sample_webhook_runs_once : Sample.retried.claims.length = 1 ∧ Sample.retried.registry.length = 1 ∧
    ∀ sid, Sample.retried.Stays sid → ((World.of sid Sample.retried.claims).map EventOccurrence.eventId).Nodup :=
  ⟨by decide +kernel, by decide +kernel,
    (events_run_once Sample.sha256_injective Sample.sampleSchedules_registered Sample.retried_reached).1⟩

end AnimaCore.AutomationEvents
