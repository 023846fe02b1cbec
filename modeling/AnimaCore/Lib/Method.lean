import AnimaCore.Lib.Fallible

/-!
# AnimaCore.Lib.Method — methods that change an object and may fail

A `Method ε σ α` is code that works on an object of type `σ` in place and ends with a value or an error.  Unlike a
function `σ → Except ε σ`, what the code had already written when it failed is still there: `m.call s` returns the
result *and* the object.

* `check_bind_eq_ok`, `get_bind_call`, `set_bind_call`: a successful call is peeled apart by `obtain`;
  `check_ensure_bind_call` is the branch of a check that is a condition.
* `Guarded changes m`: a call that fails, or that returns a value `a` with `changes a = false`, leaves the object as it
  was.  The rules `Guarded.check`, `Guarded.get`, `Guarded.ite`, … follow the shape of the code.
-/

namespace AnimaCore.Lib

variable {ε σ α β : Type}

/-- Code on an object of type `σ`. -/
abbrev Method (ε σ α : Type) := ExceptT ε (StateM σ) α

/-- The result of a call, and the object after it. -/
def Method.call (m : Method ε σ α) (s : σ) : Except ε α × σ := StateT.run (ExceptT.run m) s

namespace Method

/-- A fallible computation that does not touch the object. -/
def check (x : Except ε α) : Method ε σ α := ExceptT.mk (pure x)

variable {s s' : σ} {a : α} {b : β} {x : Except ε α}

@[simp] theorem call_pure : (pure a : Method ε σ α).call s = (.ok a, s) := rfl

@[simp] theorem call_check : (check x : Method ε σ α).call s = (x, s) := rfl

@[simp] theorem call_set : (set s' : Method ε σ PUnit).call s = (.ok ⟨⟩, s') := rfl

@[simp] theorem get_bind_call {f : σ → Method ε σ β} : ((get : Method ε σ σ) >>= f).call s = (f s).call s := rfl

@[simp] theorem set_bind_call {f : PUnit → Method ε σ β} :
    ((set s' : Method ε σ PUnit) >>= f).call s = (f ⟨⟩).call s' := rfl

theorem bind_call {m : Method ε σ α} {f : α → Method ε σ β} :
    (m >>= f).call s =
      match m.call s with
      | (.ok a, s₁) => (f a).call s₁
      | (.error e, s₁) => (.error e, s₁) := by
  change (StateT.run (ExceptT.run (m >>= f)) s : Except ε β × σ) = _
  rw [ExceptT.run_bind, StateT.run_bind]
  change (match (m.call s).1 with
    | .ok a => ExceptT.run (f a)
    | .error e => pure (.error e)) (m.call s).2 = _
  rcases m.call s with ⟨_ | a, s₁⟩
  · rfl
  · rfl

theorem check_ok_bind_call {f : α → Method ε σ β} : ((check (.ok a) : Method ε σ α) >>= f).call s = (f a).call s := rfl

theorem check_error_bind_call {e : ε} {f : α → Method ε σ β} :
    ((check (.error e) : Method ε σ α) >>= f).call s = (.error e, s) := rfl

theorem check_ensure_bind_call {c : Prop} [Decidable c] {e : ε} {f : Unit → Method ε σ α} :
    ((check (ensure c e) : Method ε σ Unit) >>= f).call s = if c then (f ()).call s else (.error e, s) := by
  unfold ensure
  by_cases hc : c
  · rw [if_pos hc, if_pos hc, check_ok_bind_call]
  · rw [if_neg hc, if_neg hc, check_error_bind_call]

@[simp] theorem check_bind_eq_ok {f : α → Method ε σ β} :
    ((check x : Method ε σ α) >>= f).call s = (.ok b, s') ↔ ∃ a, x = .ok a ∧ (f a).call s = (.ok b, s') := by
  cases x with
  | error e =>
    rw [check_error_bind_call]
    simp
  | ok a =>
    rw [check_ok_bind_call]
    simp

/-- A call that changes the object returns a value that says so. -/
def Guarded (changes : α → Bool) (m : Method ε σ α) : Prop :=
  ∀ s, (m.call s).2 = s ∨ ∃ a, (m.call s).1 = .ok a ∧ changes a = true

namespace Guarded

variable {changes : α → Bool} {m : Method ε σ α}

theorem check {y : Except ε β} {f : β → Method ε σ α} (h : ∀ b, Guarded changes (f b)) :
    Guarded changes (Method.check y >>= f) := by
  intro s
  cases y with
  | error e => exact .inl rfl
  | ok b => exact h b s

theorem get {f : σ → Method ε σ α} (h : ∀ s, Guarded changes (f s)) :
    Guarded changes ((MonadState.get : Method ε σ σ) >>= f) :=
  fun s => h s s

theorem ite {p : Prop} [Decidable p] {m m' : Method ε σ α} (h : Guarded changes m) (h' : Guarded changes m') :
    Guarded changes (if p then m else m') := by
  split_ifs
  · exact h
  · exact h'

theorem pure (a : α) : Guarded changes (Pure.pure a : Method ε σ α) := fun _ => .inl rfl

theorem checked (x : Except ε α) : Guarded changes (Method.check x : Method ε σ α) := fun _ => .inl rfl

theorem assign {a : α} (h : changes a = true) (s' : σ) :
    Guarded changes ((MonadStateOf.set s' : Method ε σ PUnit) >>= fun _ => Pure.pure a) :=
  fun _ => .inr ⟨a, rfl, h⟩

theorem then_true {m : Method ε σ Unit} (h : Guarded (fun _ => true) m) :
    Guarded id (m >>= fun _ => Pure.pure true) := by
  intro s
  have hkeep := h s
  rw [bind_call]
  rcases hm : m.call s with ⟨e | u, s₁⟩
  · rw [hm] at hkeep
    exact .inl (hkeep.resolve_right (by simp))
  · exact .inr ⟨true, rfl, rfl⟩

theorem andThen {m : Method ε σ β} {f : β → Method ε σ α} (h : Guarded (fun _ => true) m)
    (hf : ∀ b s, ∃ a, ((f b).call s).1 = .ok a ∧ changes a = true) : Guarded changes (m >>= f) := by
  intro s
  have hkeep := h s
  rw [bind_call]
  rcases hm : m.call s with ⟨e | b, s₁⟩
  · rw [hm] at hkeep
    exact .inl (hkeep.resolve_right (by simp))
  · exact .inr (hf b s₁)

theorem refused {e : ε} (h : Guarded changes m) (hm : m.call s = (.error e, s')) : s' = s := by
  have hkeep := h s
  rw [hm] at hkeep
  exact hkeep.resolve_right (by simp)

end Guarded

end Method

end AnimaCore.Lib
