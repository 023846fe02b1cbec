import AnimaCore.AnimaMemory.Indexed

/-!
# AnimaCore.AnimaMemory.Temporal — records that are true for a time

A temporal record is true between two times and is superseded by later ones.  Superseding an open record closes it at a time
that the new record names, whatever the time at which the old one began.

* `Dated`: what the two kinds of temporal records have in common, and `Dated.supersede`.
* `Sound records retired future`: the ranges are right, what was superseded is not active, and the identifiers that are
  still to come are not in use.
* `Chronicle`, `chronicle`: a process with the records that have been superseded so far.
* `InOrder`: a call closes no record before it began, and loads no record that is wrong.
-/

namespace AnimaCore.AnimaMemory

open Lib

variable {F : Type} {S : Setting F}

/-! ## Identifiers -/

theorem toString_no_dash (n : ℕ) : '-' ∉ (toString n).toList := by
  intro h
  have hdigit : '-' ∈ Nat.toDigits 10 n := by simpa [Nat.toString_eq_repr, Nat.repr] using h
  have := Nat.isDigit_of_mem_toDigits (by decide) (by decide) hdigit
  exact absurd this (by decide)

theorem after_last_dash {a b a' b' : List Char} (hb : '-' ∉ b) (hb' : '-' ∉ b') (h : a ++ '-' :: b = a' ++ '-' :: b') :
    b = b' := by
  have hcut : ∀ x y : List Char, '-' ∉ y → (x ++ '-' :: y).reverse.takeWhile (· != '-') = y.reverse := by
    intro x y hy
    have hall : ∀ c ∈ y.reverse, (c != '-') = true := by
      intro c hc
      rw [bne_iff_ne]
      rintro rfl
      exact hy (List.mem_reverse.mp hc)
    rw [List.reverse_append, List.reverse_cons, List.append_assoc, List.takeWhile_append_of_pos hall]
    simp
  have hends : (a ++ '-' :: b).reverse.takeWhile (· != '-') = (a' ++ '-' :: b').reverse.takeWhile (· != '-') := by
    rw [h]
  rw [hcut a b hb, hcut a' b' hb'] at hends
  exact List.reverse_injective hends

theorem nextId_number {label : String} {now now' n n' : ℕ} (h : nextId label now n = nextId label now' n') : n = n' := by
  have hlist := congrArg String.toList h
  simp only [nextId, String.toList_append] at hlist
  rw [show ("-" : String).toList = ['-'] by rfl, List.append_assoc _ ['-'] (toString n).toList,
    List.append_assoc _ ['-'] (toString n').toList] at hlist
  have := after_last_dash (toString_no_dash n) (toString_no_dash n') hlist
  exact Nat.repr_injective (String.toList_inj.mp this)

def future (label : String) (next : ℕ) : Set String := { id | ∃ now n, next ≤ n ∧ id = nextId label now n }

theorem future_mono (label : String) {next next' : ℕ} (h : next ≤ next') : future label next' ⊆ future label next := by
  rintro id ⟨now, n, hn, rfl⟩
  exact ⟨now, n, by omega, rfl⟩

theorem nextId_mem_future (label : String) (now next : ℕ) : nextId label now next ∈ future label next :=
  ⟨now, next, le_rfl, rfl⟩

theorem nextId_not_mem_future (label : String) (now next : ℕ) : nextId label now next ∉ future label (next + 1) := by
  rintro ⟨now', n, hn, h⟩
  have := nextId_number h
  omega

/-! ## Dated records -/

/-- The range and the status of a temporal record. -/
structure Dated where
  validFrom : Option ℕ
  validTo : Option ℕ
  status : TemporalRecordStatus

/-- A range that ends where it begins, or later. -/
def Dated.Valid (d : Dated) : Prop := ∀ a b, d.validFrom = some a → d.validTo = some b → a ≤ b

/-- A superseded record is closed if it was open. -/
def Dated.supersede (closeAt : Option ℕ) (d : Dated) : Dated := ⟨d.validFrom, d.validTo.or closeAt, .superseded⟩

def Dated.Begun (d : Dated) (closeAt : ℕ) : Prop := ∀ a, d.validTo = none → d.validFrom = some a → a ≤ closeAt

theorem Dated.Valid.supersede {d : Dated} (h : d.Valid) {closeAt : ℕ} (hbegun : d.Begun closeAt) :
    (d.supersede (some closeAt)).Valid := by
  intro a b ha hb
  rcases hto : d.validTo with _ | c
  · simp only [Dated.supersede, hto, Option.none_or, Option.some.injEq] at hb
    subst hb
    exact hbegun a hto ha
  · simp only [Dated.supersede, hto, Option.some_or, Option.some.injEq] at hb
    subst hb
    exact h a c ha hto

theorem valid_of_validateTemporalRange {d : Dated} (h : validateTemporalRange d.validFrom d.validTo = .ok ()) : d.Valid := by
  intro a b ha hb
  rw [ha, hb] at h
  unfold validateTemporalRange at h
  simp only at h
  split_ifs at h with hlt
  omega

def supersededIn (records : Table String Dated) : Set String :=
  { id | ∃ d, records[id]? = some d ∧ d.status = .superseded }

structure Sound (records : Table String Dated) (retired to_come : Set String) : Prop where
  ranges : ∀ (id : String) d, records[id]? = some d → d.Valid
  inactive : ∀ (id : String) d, records[id]? = some d → id ∈ retired → d.status ≠ .active
  fresh : ∀ id ∈ to_come, id ∉ retired ∧ records[id]? = none

namespace Sound

variable {records records' : Table String Dated} {retired to_come to_come' : Set String}

theorem sub (h : Sound records retired to_come)
    (hsub : ∀ (id : String) d, records'[id]? = some d → records[id]? = some d) (hfuture : to_come' ⊆ to_come) :
    Sound records' (retired ∪ supersededIn records') to_come' := by
  have hnone : ∀ id ∈ to_come', records'[id]? = none := by
    intro id hid
    rcases hd : records'[id]? with _ | d
    · rfl
    · have := hsub id d hd
      rw [(h.fresh id (hfuture hid)).2] at this
      exact absurd this (by simp)
  refine ⟨fun id d hd => h.ranges id d (hsub id d hd), ?_, fun id hid => ⟨?_, hnone id hid⟩⟩
  · rintro id d hd (hret | ⟨d', hd', hsup⟩)
    · exact h.inactive id d (hsub id d hd) hret
    · rw [hd] at hd'
      obtain rfl := Option.some.inj hd'
      rw [hsup]
      exact TemporalRecordStatus.noConfusion
  · rintro (hret | ⟨d, hd, -⟩)
    · exact (h.fresh id (hfuture hid)).1 hret
    · rw [hnone id hid] at hd
      exact absurd hd (by simp)

theorem supersede (h : Sound records retired to_come) {ids : List String} {closeAt : ℕ}
    (hbegun : ∀ id ∈ ids, ∀ d, records[id]? = some d → d.Begun closeAt) {new : String} {d : Dated} (hnew : new ∈ to_come)
    (hfuture : to_come' ⊆ to_come) (hnot : new ∉ to_come') (hvalid : d.Valid)
    (hlookup : ∀ id : String, records'[id]? =
      if new = id then some d else if id ∈ ids then records[id]?.map (Dated.supersede (some closeAt)) else records[id]?) :
    Sound records' (retired ∪ supersededIn records') to_come' := by
  -- Every record is the new one, an old one, or an old one that was superseded.
  have hcases : ∀ (id : String) e, records'[id]? = some e →
      (id = new ∧ e = d) ∨ records[id]? = some e ∨
        ∃ old, id ∈ ids ∧ records[id]? = some old ∧ e = old.supersede (some closeAt) := by
    intro id e he
    rw [hlookup] at he
    split_ifs at he with hid hmem
    · exact .inl ⟨hid.symm, (Option.some.inj he).symm⟩
    · obtain ⟨old, hold, rfl⟩ := Option.map_eq_some_iff.mp he
      exact .inr (.inr ⟨old, hmem, hold, rfl⟩)
    · exact .inr (.inl he)
  have hnone : ∀ id ∈ to_come', records'[id]? = none := by
    intro id hid
    rcases he : records'[id]? with _ | e
    · rfl
    · have hold := (h.fresh id (hfuture hid)).2
      rcases hcases id e he with ⟨rfl, -⟩ | hsame | ⟨old, -, hsame, -⟩
      · exact absurd hid hnot
      · rw [hold] at hsame
        exact absurd hsame (by simp)
      · rw [hold] at hsame
        exact absurd hsame (by simp)
  refine ⟨fun id e he => ?_, ?_, fun id hid => ⟨?_, hnone id hid⟩⟩
  · rcases hcases id e he with ⟨-, rfl⟩ | hsame | ⟨old, hmem, hold, rfl⟩
    · exact hvalid
    · exact h.ranges id e hsame
    · exact (h.ranges id old hold).supersede (hbegun id hmem old hold)
  · rintro id e he (hret | ⟨e', he', hsup⟩)
    · rcases hcases id e he with ⟨rfl, -⟩ | hsame | ⟨old, -, -, rfl⟩
      · exact absurd hret (h.fresh id hnew).1
      · exact h.inactive id e hsame hret
      · exact TemporalRecordStatus.noConfusion
    · rw [he] at he'
      obtain rfl := Option.some.inj he'
      rw [hsup]
      exact TemporalRecordStatus.noConfusion
  · rintro (hret | ⟨e, he, -⟩)
    · exact (h.fresh id (hfuture hid)).1 hret
    · rw [hnone id hid] at he
      exact absurd he (by simp)

theorem load (h : Sound records retired to_come) (hranges : ∀ (id : String) d, records'[id]? = some d → d.Valid)
    (hinactive : ∀ (id : String) d, records'[id]? = some d → id ∈ retired → d.status ≠ .active)
    (hfresh : ∀ id ∈ to_come, records'[id]? = none) : Sound records' (retired ∪ supersededIn records') to_come := by
  refine ⟨hranges, ?_, fun id hid => ⟨?_, hfresh id hid⟩⟩
  · rintro id d hd (hret | ⟨d', hd', hsup⟩)
    · exact hinactive id d hd hret
    · rw [hd] at hd'
      obtain rfl := Option.some.inj hd'
      rw [hsup]
      exact TemporalRecordStatus.noConfusion
  · rintro (hret | ⟨d, hd, -⟩)
    · exact (h.fresh id hid).1 hret
    · rw [hfresh id hid] at hd
      exact absurd hd (by simp)

end Sound

/-! ## Tables of records with dates -/

section

variable {ρ : Type} (dated : ρ → Dated)

def dates (t : Table String ρ) : Table String Dated := t.map fun _ => dated

/-- The records of `t'` are those of `t`, less some; they may have changed, but not their dates. -/
def Kept (t t' : Table String ρ) : Prop :=
  ∀ (id : String) r', t'[id]? = some r' → ∃ r, t[id]? = some r ∧ dated r = dated r'

variable {dated} {t t' : Table String ρ}

theorem getElem?_dates (id : String) : (dates dated t)[id]? = t[id]?.map dated := Std.ExtTreeMap.getElem?_map

theorem Kept.of_eq (h : t' = t) : Kept dated t t' := by
  intro id r hr
  rw [h] at hr
  exact ⟨r, hr, rfl⟩

theorem Kept.map {f : ρ → ρ} (hf : ∀ r, dated (f r) = dated r)
    (hsub : ∀ (id : String) r, t'[id]? = some r → t[id]? = some r) : Kept dated t (t'.map fun _ => f) := by
  intro id r' hr'
  rw [Std.ExtTreeMap.getElem?_map] at hr'
  obtain ⟨r, hr, rfl⟩ := Option.map_eq_some_iff.mp hr'
  exact ⟨r, hsub id r hr, (hf r).symm⟩

namespace Sound

variable {retired to_come to_come' : Set String}

theorem keep (h : Sound (dates dated t) retired to_come) (hkept : Kept dated t t') (hfuture : to_come' ⊆ to_come) :
    Sound (dates dated t') (retired ∪ supersededIn (dates dated t')) to_come' := by
  refine h.sub (fun id d hd => ?_) hfuture
  rw [getElem?_dates] at hd ⊢
  obtain ⟨r', hr', rfl⟩ := Option.map_eq_some_iff.mp hd
  obtain ⟨r, hr, hdated⟩ := hkept id r' hr'
  rw [hr, Option.map_some, hdated]

theorem add (h : Sound (dates dated t) retired to_come) {closeAt : ℕ} {close : ρ → ρ}
    (hclose : ∀ r, dated (close r) = (dated r).supersede (some closeAt)) (hidem : ∀ r, close (close r) = close r)
    {ids : List String} (hbegun : ∀ id ∈ ids, ∀ r, t[id]? = some r → (dated r).Begun closeAt) {new : String} {r : ρ}
    (hnew : new ∈ to_come) (hfuture : to_come' ⊆ to_come) (hnot : new ∉ to_come') (hvalid : (dated r).Valid) :
    Sound (dates dated ((t.modifyAll ids close).insert new r))
      (retired ∪ supersededIn (dates dated ((t.modifyAll ids close).insert new r))) to_come' := by
  have hbegun' : ∀ id ∈ ids, ∀ d, (dates dated t)[id]? = some d → d.Begun closeAt := by
    intro id hmem d hd
    rw [getElem?_dates] at hd
    obtain ⟨old, hold, rfl⟩ := Option.map_eq_some_iff.mp hd
    exact hbegun id hmem old hold
  refine h.supersede hbegun' hnew hfuture hnot hvalid fun id => ?_
  rw [getElem?_dates, getElem?_dates, Table.getElem?_insert_eq, Table.getElem?_modifyAll hidem]
  split_ifs
  · rfl
  · rw [Option.map_map, Option.map_map]
    refine congrArg (fun f => Option.map f t[id]?) (funext fun old => ?_)
    exact hclose old
  · rfl

theorem reload (h : Sound (dates dated t) retired to_come) {key : ρ → String} {l : List ρ}
    (hl : ∀ r ∈ l, (dated r).Valid ∧ (key r ∈ retired → (dated r).status ≠ .active) ∧ key r ∉ to_come) :
    Sound (dates dated (Table.load key ∅ l)) (retired ∪ supersededIn (dates dated (Table.load key ∅ l))) to_come := by
  have hloaded : ∀ (id : String) d, (dates dated (Table.load key ∅ l))[id]? = some d → ∃ r ∈ l, key r = id ∧ dated r = d := by
    intro id d hd
    rw [getElem?_dates] at hd
    obtain ⟨r, hr, rfl⟩ := Option.map_eq_some_iff.mp hd
    rcases Table.getElem?_load hr with ⟨hid, hmem⟩ | hempty
    · exact ⟨r, hmem, hid, rfl⟩
    · simp at hempty
  refine h.load (fun id d hd => ?_) (fun id d hd hret => ?_) (fun id hid => ?_)
  · obtain ⟨r, hmem, -, rfl⟩ := hloaded id d hd
    exact (hl r hmem).1
  · obtain ⟨r, hmem, rfl, rfl⟩ := hloaded id d hd
    exact (hl r hmem).2.1 hret
  · rcases hd : (dates dated (Table.load key ∅ l))[id]? with _ | d
    · rfl
    · obtain ⟨r, hmem, rfl, -⟩ := hloaded id d hd
      exact absurd hid (hl r hmem).2.2

theorem empty (to_come : Set String) : Sound (dates dated ∅) ∅ to_come where
  ranges id d hd := absurd hd (by simp [getElem?_dates])
  inactive id d hd := absurd hd (by simp [getElem?_dates])
  fresh id _ := ⟨by simp, by simp [getElem?_dates]⟩

end Sound

end

/-! ## Facts and relationships -/

def TemporalFact.dated (f : TemporalFact F) : Dated := ⟨f.validFrom, f.validTo, f.status⟩

def TemporalRelationship.dated (r : TemporalRelationship F) : Dated := ⟨r.validFrom, r.validTo, r.status⟩

namespace MemoryManager

def factDates (m : MemoryManager F) : Table String Dated := dates TemporalFact.dated m.temporalFacts

def relationshipDates (m : MemoryManager F) : Table String Dated := dates TemporalRelationship.dated m.temporalRelationships

end MemoryManager

/-! ## Runs -/

/-- A process, and the records that have been superseded so far. -/
structure Chronicle (F : Type) where
  process : Process F
  supersededFacts : Set String
  supersededRelationships : Set String

def Chronicle.new (counters : Counters) : Chronicle F := ⟨.new counters, ∅, ∅⟩

variable (S) in
/-- A call, with the records that are superseded after it. -/
def chronicle (c : Chronicle F) (op : Op S) : Chronicle F where
  process := step S c.process op
  supersededFacts := c.supersededFacts ∪ supersededIn (step S c.process op).manager.factDates
  supersededRelationships := c.supersededRelationships ∪ supersededIn (step S c.process op).manager.relationshipDates

/-- A new fact closes the records it supersedes at its beginning, or else when it was observed. -/
def closingTime (validFrom observedAt : Option ℕ) (now : ℕ) : ℕ := validFrom.getD (observedAt.getD now)

/-- The call closes no open record before it began.  A snapshot has right ranges, brings back no record as active that was
superseded before, and no identifier that is still to come. -/
def InOrder (c : Chronicle F) : Op S → Prop
  | .addTemporalFact clock fact =>
    ∀ id ∈ uniqueStrings fact.supersedesFactIds, ∀ f, c.process.manager.temporalFacts[id]? = some f →
      f.dated.Begun (closingTime fact.validFrom fact.observedAt (clock 0))
  | .addTemporalRelationship clock relationship =>
    ∀ id ∈ uniqueStrings relationship.supersedesRelationshipIds, ∀ r,
      c.process.manager.temporalRelationships[id]? = some r →
        r.dated.Begun (closingTime relationship.validFrom relationship.observedAt (clock 0))
  | .replaceSnapshot _ snapshot =>
    (∀ f ∈ snapshot.temporalFacts, f.dated.Valid ∧ (f.id ∈ c.supersededFacts → f.status ≠ .active) ∧
      f.id ∉ future "tfact" c.process.counters.temporalFact) ∧
    ∀ r ∈ snapshot.temporalRelationships, r.dated.Valid ∧ (r.id ∈ c.supersededRelationships → r.status ≠ .active) ∧
      r.id ∉ future "trel" c.process.counters.temporalRelationship
  | _ => True

/-! ## Calls that add no record -/

theorem Effect.temporal {p : Process F} {op : Op S} {m' : MemoryManager F} (heffect : Effect S p op m')
    (hreplace : ∀ clock snapshot, op ≠ .replaceSnapshot clock snapshot) :
    ((∀ clock fact, op ≠ .addTemporalFact clock fact) → Kept TemporalFact.dated p.manager.temporalFacts m'.temporalFacts) ∧
    ((∀ clock relationship, op ≠ .addTemporalRelationship clock relationship) →
      Kept TemporalRelationship.dated p.manager.temporalRelationships m'.temporalRelationships) := by
  have hsame : ∀ m : MemoryManager F, m.temporalFacts = p.manager.temporalFacts →
      m.temporalRelationships = p.manager.temporalRelationships →
      ((∀ clock fact, op ≠ .addTemporalFact clock fact) → Kept TemporalFact.dated p.manager.temporalFacts m.temporalFacts) ∧
      ((∀ clock relationship, op ≠ .addTemporalRelationship clock relationship) →
        Kept TemporalRelationship.dated p.manager.temporalRelationships m.temporalRelationships) :=
    fun m hfacts hrels => ⟨fun _ => .of_eq hfacts, fun _ => .of_eq hrels⟩
  cases heffect with
  | same => exact hsame _ rfl rfl
  | added now memory => exact hsame _ rfl rfl
  | rewritten hold hid hagent hname => exact hsame _ rfl rfl
  | entity now kind aliases summary hid hname => exact hsame _ rfl rfl
  | related key hcall hsource htarget hkey => exact hsame _ rfl rfl
  | fact hid hrange hsubject hobject hfrom => exact ⟨fun h => absurd rfl (h _ _), fun _ => .of_eq rfl⟩
  | temporalRelationship hid hrange hsource htarget hfrom => exact ⟨fun _ => .of_eq rfl, fun h => absurd rfl (h _ _)⟩
  | forgotTemporalFact id =>
    exact ⟨fun _ => .map (fun _ => rfl) (fun _ _ => Table.getElem?_of_erase), fun _ => .of_eq rfl⟩
  | forgotTemporalRelationship id =>
    exact ⟨fun _ => .of_eq rfl, fun _ => .map (fun _ => rfl) (fun _ _ => Table.getElem?_of_erase)⟩
  | forgotAgentRelationship id => exact hsame _ rfl rfl
  | forgot id => exact hsame _ rfl rfl
  | retained policy now isProtected =>
    exact hsame _ (foldl_keeps (f := MemoryManager.forget) (g := MemoryManager.temporalFacts) (fun _ _ => rfl) _ _)
      (foldl_keeps (f := MemoryManager.forget) (g := MemoryManager.temporalRelationships) (fun _ _ => rfl) _ _)
  | cleared agentId =>
    rcases agentId with _ | agentId
    · refine ⟨fun _ id f hf => ?_, fun _ id r hr => ?_⟩
      · simp [MemoryManager.clear] at hf
      · simp [MemoryManager.clear] at hr
    · exact ⟨fun _ id f hf => ⟨f, Table.getElem?_of_filter hf, rfl⟩, fun _ id r hr => ⟨r, Table.getElem?_of_filter hr, rfl⟩⟩
  | replaced clock snapshot => exact absurd rfl (hreplace _ _)
  | deleted id =>
    unfold MemoryManager.deleteMemory
    by_cases hid : id ∉ p.manager.memories
    · rw [if_pos hid]
      exact hsame _ rfl rfl
    · rw [if_neg hid]
      exact ⟨fun _ => .map (fun _ => rfl) (fun _ _ h => h),
        fun _ => .map (fun _ => rfl) (fun _ _ h => h)⟩
  | withoutEntity hin howner =>
    exact ⟨fun _ => .map (fun _ => rfl) (fun _ _ => Table.getElem?_of_eraseAll),
      fun _ => .map (fun _ => rfl) (fun _ _ => Table.getElem?_of_eraseAll)⟩
  | consolidated prepared hbefore =>
    exact hsame _ (foldl_keeps (f := MemoryManager.putMemory S) (g := MemoryManager.temporalFacts) (fun _ _ => rfl) _ _)
      (foldl_keeps (f := MemoryManager.putMemory S) (g := MemoryManager.temporalRelationships) (fun _ _ => rfl) _ _)
  | undone prepared hafter =>
    exact hsame _ (foldl_keeps (f := MemoryManager.putMemory S) (g := MemoryManager.temporalFacts) (fun _ _ => rfl) _ _)
      (foldl_keeps (f := MemoryManager.putMemory S) (g := MemoryManager.temporalRelationships) (fun _ _ => rfl) _ _)

/-! ## One call -/

theorem Process.ended_counters {ε α : Type} {p : Process F} {fail : ε → Failure} {took : α → Counters}
    {r : Except ε α × MemoryManager F} {P : Counters → Prop} (hp : P p.counters) (htook : ∀ a, P (took a)) :
    P (p.ended fail took r).2.counters := by
  unfold Process.ended
  rcases r.1 with e | a
  · exact hp
  · exact htook a

theorem step_counters (p : Process F) (op : Op S) : p.counters.temporalFact ≤ (step S p op).counters.temporalFact ∧
    p.counters.temporalRelationship ≤ (step S p op).counters.temporalRelationship := by
  have hended : ∀ {ε α : Type} {q : Process F} {fail : ε → Failure} {took : α → Counters}
      {call : Except ε α × MemoryManager F} {r : Except Failure Unit × Process F}, r = q.ended fail took call →
      (p.counters.temporalFact ≤ q.counters.temporalFact ∧
        p.counters.temporalRelationship ≤ q.counters.temporalRelationship) →
      (∀ a, p.counters.temporalFact ≤ (took a).temporalFact ∧
        p.counters.temporalRelationship ≤ (took a).temporalRelationship) →
      p.counters.temporalFact ≤ r.2.counters.temporalFact ∧
        p.counters.temporalRelationship ≤ r.2.counters.temporalRelationship := by
    intro ε α q fail took call r hr hq htook
    rw [hr]
    exact Process.ended_counters
      (P := fun c => p.counters.temporalFact ≤ c.temporalFact ∧ p.counters.temporalRelationship ≤ c.temporalRelationship)
      hq htook
  unfold step
  cases op with
  | add clock memory => exact hended rfl ⟨le_rfl, le_rfl⟩ fun _ => ⟨le_rfl, le_rfl⟩
  | addEvaluated clock memory opts =>
    refine hended rfl ⟨le_rfl, le_rfl⟩ fun _ => ?_
    split_ifs
    · exact ⟨le_rfl, le_rfl⟩
    · exact ⟨le_rfl, le_rfl⟩
  | upsertEntity clock entity => exact hended rfl ⟨le_rfl, le_rfl⟩ fun _ => ⟨le_rfl, le_rfl⟩
  | upsertAgentRelationship clock pick relationship =>
    refine hended rfl ⟨le_rfl, le_rfl⟩ fun _ => ?_
    split_ifs
    · exact ⟨le_rfl, le_rfl⟩
    · exact ⟨le_rfl, le_rfl⟩
  | addTemporalFact clock fact => exact hended rfl ⟨le_rfl, le_rfl⟩ fun _ => ⟨Nat.le_succ _, le_rfl⟩
  | addTemporalRelationship clock relationship => exact hended rfl ⟨le_rfl, le_rfl⟩ fun _ => ⟨le_rfl, Nat.le_succ _⟩
  | applyRetention policy now isProtected => exact hended rfl ⟨le_rfl, le_rfl⟩ fun _ => ⟨le_rfl, le_rfl⟩
  | updateMemory id patch => exact hended rfl ⟨le_rfl, le_rfl⟩ fun _ => ⟨le_rfl, le_rfl⟩
  | detachSession id => exact hended rfl ⟨le_rfl, le_rfl⟩ fun _ => ⟨le_rfl, le_rfl⟩
  | deleteEntity kind id => exact hended rfl ⟨le_rfl, le_rfl⟩ fun _ => ⟨le_rfl, le_rfl⟩
  | consolidateFacts clock agentId roomId sources content groupTag visible =>
    exact hended rfl ⟨le_rfl, le_rfl⟩ fun _ => ⟨le_rfl, le_rfl⟩
  | applyFactConsolidation prepared visible => exact hended rfl ⟨le_rfl, le_rfl⟩ fun _ => ⟨le_rfl, le_rfl⟩
  | undoFactConsolidation prepared visible => exact hended rfl ⟨le_rfl, le_rfl⟩ fun _ => ⟨le_rfl, le_rfl⟩
  | elsewhere taken => exact ⟨Nat.le_add_right _ _, Nat.le_add_right _ _⟩
  | _ => exact ⟨le_rfl, le_rfl⟩

def Chronicle.FactsSound (c : Chronicle F) : Prop :=
  Sound c.process.manager.factDates c.supersededFacts (future "tfact" c.process.counters.temporalFact)

def Chronicle.RelationshipsSound (c : Chronicle F) : Prop :=
  Sound c.process.manager.relationshipDates c.supersededRelationships
    (future "trel" c.process.counters.temporalRelationship)

theorem closeAt_eq (validFrom observedAt : Option ℕ) (now : ℕ) :
    validFrom.or (some (observedAt.getD now)) = some (closingTime validFrom observedAt now) := by
  unfold closingTime
  rcases validFrom with _ | a
  · rfl
  · rfl

theorem Chronicle.FactsSound.chronicle {c : Chronicle F} (h : c.FactsSound) {op : Op S} (horder : InOrder c op) :
    (chronicle S c op).FactsSound := by
  have hcounters := future_mono "tfact" (step_counters c.process op).1
  have hother : (∀ clock snapshot, op ≠ .replaceSnapshot clock snapshot) →
      (∀ clock fact, op ≠ .addTemporalFact clock fact) → (AnimaMemory.chronicle S c op).FactsSound :=
    fun hreplace hadd => h.keep (((step_effect c.process op).temporal hreplace).1 hadd) hcounters
  cases op with
  | addTemporalFact clock fact =>
    have hguarded := MemoryManager.addTemporalFact_guarded S clock c.process.counters.temporalFact fact c.process.manager
    rcases hcall : (MemoryManager.addTemporalFact S clock c.process.counters.temporalFact fact).call c.process.manager
      with ⟨e | f, m'⟩
    · -- The call has failed, so nothing has changed.
      rw [hcall] at hguarded
      obtain rfl : m' = c.process.manager := hguarded.resolve_right (by simp)
      have hsame : (step S c.process (.addTemporalFact clock fact)).manager.temporalFacts = c.process.manager.temporalFacts := by
        simp only [step, perform, hcall, Process.ended]
      exact h.keep (.of_eq hsame) hcounters
    · obtain ⟨hid, hrange, -, -, -, rfl⟩ := addTemporalFact_eq_ok hcall
      rw [closeAt_eq] at hcall
      have hnew : f.id ∈ future "tfact" c.process.counters.temporalFact := by
        rw [hid]
        exact nextId_mem_future "tfact" (clock 3) _
      have hnot : f.id ∉ future "tfact" (c.process.counters.temporalFact + 1) := by
        rw [hid]
        exact nextId_not_mem_future "tfact" (clock 3) _
      have hvalid : f.dated.Valid := valid_of_validateTemporalRange hrange
      unfold FactsSound AnimaMemory.chronicle step perform
      simp only [hcall, Process.ended]
      exact h.add (fun _ => rfl) (MemoryManager.supersedeFact_idem _ _) horder hnew (future_mono "tfact" (Nat.le_succ _))
        hnot hvalid
  | replaceSnapshot clock snapshot =>
    have hload := h.reload horder.1
    rw [← replaceSnapshot_temporalFacts c.process.manager clock snapshot] at hload
    exact hload
  | _ => exact hother (by simp) (by simp)

theorem Chronicle.RelationshipsSound.chronicle {c : Chronicle F} (h : c.RelationshipsSound) {op : Op S}
    (horder : InOrder c op) : (chronicle S c op).RelationshipsSound := by
  have hcounters := future_mono "trel" (step_counters c.process op).2
  have hother : (∀ clock snapshot, op ≠ .replaceSnapshot clock snapshot) →
      (∀ clock relationship, op ≠ .addTemporalRelationship clock relationship) →
      (AnimaMemory.chronicle S c op).RelationshipsSound :=
    fun hreplace hadd => h.keep (((step_effect c.process op).temporal hreplace).2 hadd) hcounters
  cases op with
  | addTemporalRelationship clock relationship =>
    have hguarded := MemoryManager.addTemporalRelationship_guarded S clock c.process.counters.temporalRelationship relationship
      c.process.manager
    rcases hcall : (MemoryManager.addTemporalRelationship S clock c.process.counters.temporalRelationship relationship).call
      c.process.manager with ⟨e | r, m'⟩
    · rw [hcall] at hguarded
      obtain rfl : m' = c.process.manager := hguarded.resolve_right (by simp)
      have hsame : (step S c.process (.addTemporalRelationship clock relationship)).manager.temporalRelationships =
          c.process.manager.temporalRelationships := by
        simp only [step, perform, hcall, Process.ended]
      exact h.keep (.of_eq hsame) hcounters
    · obtain ⟨hid, hrange, -, -, -, rfl⟩ := addTemporalRelationship_eq_ok hcall
      rw [closeAt_eq] at hcall
      have hnew : r.id ∈ future "trel" c.process.counters.temporalRelationship := by
        rw [hid]
        exact nextId_mem_future "trel" (clock 3) _
      have hnot : r.id ∉ future "trel" (c.process.counters.temporalRelationship + 1) := by
        rw [hid]
        exact nextId_not_mem_future "trel" (clock 3) _
      have hvalid : r.dated.Valid := valid_of_validateTemporalRange hrange
      unfold RelationshipsSound AnimaMemory.chronicle step perform
      simp only [hcall, Process.ended]
      exact h.add (fun _ => rfl) (MemoryManager.supersedeRelationship_idem _ _) horder hnew
        (future_mono "trel" (Nat.le_succ _)) hnot hvalid
  | replaceSnapshot clock snapshot =>
    have hload := h.reload horder.2
    rw [← replaceSnapshot_temporalRelationships c.process.manager clock snapshot] at hload
    exact hload
  | _ => exact hother (by simp) (by simp)

/-- **Temporal records stay sound** in every run whose calls are in order: no range ends before it begins, and a record that
was superseded at some time is never active again.  A call that fails changes nothing in any case. -/
theorem temporal_records_sound (counters : Counters) {c : Chronicle F}
    (hreach : Reaches (chronicle S) InOrder (Chronicle.new counters) c) :
    (∀ (id : String) f, c.process.manager.temporalFacts[id]? = some f →
      (∀ a b, f.validFrom = some a → f.validTo = some b → a ≤ b) ∧ (id ∈ c.supersededFacts → f.status ≠ .active)) ∧
    (∀ (id : String) r, c.process.manager.temporalRelationships[id]? = some r →
      (∀ a b, r.validFrom = some a → r.validTo = some b → a ≤ b) ∧ (id ∈ c.supersededRelationships → r.status ≠ .active)) ∧
    ∀ (op : Op S) e, (perform S c.process op).1 = .error e → (perform S c.process op).2.manager = c.process.manager := by
  have hsound : c.FactsSound ∧ c.RelationshipsSound := by
    refine hreach.invariant (P := fun c => c.FactsSound ∧ c.RelationshipsSound) ⟨Sound.empty _, Sound.empty _⟩ ?_
    intro c op _ h horder
    exact ⟨h.1.chronicle horder, h.2.chronicle horder⟩
  obtain ⟨hfacts, hrels⟩ := hsound
  refine ⟨fun id f hf => ?_, fun id r hr => ?_, fun op e he => perform_error c.process op e he⟩
  · have hd : c.process.manager.factDates[id]? = some f.dated := by
      rw [MemoryManager.factDates, getElem?_dates, hf]
      rfl
    exact ⟨hfacts.ranges id f.dated hd, hfacts.inactive id f.dated hd⟩
  · have hd : c.process.manager.relationshipDates[id]? = some r.dated := by
      rw [MemoryManager.relationshipDates, getElem?_dates, hr]
      rfl
    exact ⟨hrels.ranges id r.dated hd, hrels.inactive id r.dated hd⟩

/-! ## A correction that arrives late -/

def livesSince (since : ℕ) (supersedes : List String) : NewTemporalFact ℕ where
  subjectKind := .user
  subjectId := "u"
  subjectName := "Uma"
  predicate := "lives in"
  objectKind := none
  objectId := none
  objectName := none
  value := some "Oslo"
  validFrom := some since
  validTo := none
  observedAt := none
  confidence := 90
  evidenceMemoryIds := []
  supersedesFactIds := supersedes
  status := none
  tags := none
  roomId := none
  worldId := none
  sessionId := none

/-- Two facts, the second in place of the first. -/
def moves (first second : ℕ) : List (Op hundredths) :=
  [.addTemporalFact (fun _ => 1) (livesSince first []), .addTemporalFact (fun _ => 1) (livesSince second ["tfact-1-0"])]

theorem moves_reach : Reaches (chronicle hundredths) InOrder (Chronicle.new ⟨0, 0, 0, 0⟩)
    (run (chronicle hundredths) (Chronicle.new ⟨0, 0, 0, 0⟩) (moves 100 150)) := by
  have hids : uniqueStrings ["tfact-1-0"] = ["tfact-1-0"] := by decide +kernel
  have hfirst : ((chronicle hundredths (Chronicle.new ⟨0, 0, 0, 0⟩)
      (.addTemporalFact (fun _ => 1) (livesSince 100 []))).process.manager.temporalFacts["tfact-1-0"]?.map
        fun f => f.validFrom) = some (some 100) := by decide +kernel
  unfold moves
  refine reaches_pair ?_ ?_
  · intro id hid
    exact absurd hid (by simp [livesSince, uniqueStrings, mergeUnique])
  · intro id hid f hf a _ ha
    have hid' : id = "tfact-1-0" := by simpa [livesSince, hids] using hid
    rw [hid'] at hf
    rw [hf] at hfirst
    have hfrom : f.validFrom = some 100 := by simpa using hfirst
    have ha' : f.validFrom = some a := ha
    rw [hfrom] at ha'
    obtain rfl := Option.some.inj ha'
    decide

theorem temporal_records_sound_for_moves :
    (run (chronicle hundredths) (Chronicle.new ⟨0, 0, 0, 0⟩) (moves 100 150)).process.manager.temporalFacts.size = 2 ∧
    ∀ (id : String) f,
      (run (chronicle hundredths) (Chronicle.new ⟨0, 0, 0, 0⟩) (moves 100 150)).process.manager.temporalFacts[id]? = some f →
      ∀ a b, f.validFrom = some a → f.validTo = some b → a ≤ b :=
  ⟨by decide +kernel, fun id f hf => ((temporal_records_sound ⟨0, 0, 0, 0⟩ moves_reach).1 id f hf).1⟩

/-- **A correction that arrives late** inverts the range of what it corrects: the fact true since 100 is closed at 50. -/
theorem late_correction_inverts_range :
    ¬ ∀ (id : String) f, (run (step hundredths) (Process.new ⟨0, 0, 0, 0⟩) (moves 100 50)).manager.temporalFacts[id]? = some f →
      ∀ a b, f.validFrom = some a → f.validTo = some b → a ≤ b := by
  intro h
  have hfact : ((run (step hundredths) (Process.new ⟨0, 0, 0, 0⟩) (moves 100 50)).manager.temporalFacts["tfact-1-0"]?.map
      fun f => (f.validFrom, f.validTo)) = some (some 100, some 50) := by decide +kernel
  obtain ⟨f, hf, hdates⟩ := Option.map_eq_some_iff.mp hfact
  simp only [Prod.mk.injEq] at hdates
  exact absurd (h "tfact-1-0" f hf 100 50 hdates.1 hdates.2) (by decide)

end AnimaCore.AnimaMemory
