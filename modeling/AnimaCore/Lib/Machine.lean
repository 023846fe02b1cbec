import Mathlib

/-!
# AnimaCore.Lib.Machine — runs of a deterministic machine

A machine is a function `step : σ → ι → σ` from a state and an input to the next state.

* `Reaches step allowed s₀ s`: `s` is reached from `s₀` by inputs that all meet `allowed` in the state before them.
* `Reaches.invariant`: what the start satisfies and every allowed step keeps holds of every reached state.
* `run step s inputs`: the state after a whole list of inputs; with nothing forbidden, the reached states are the
  ends of runs (`reaches_run`), and a run over `l ++ r` is a run over `r` from the end of the one over `l`.
* `countAlong step p s inputs`: how many inputs of a run meet `p` in the state before them.
-/

namespace AnimaCore.Lib

variable {σ ι : Type} {step : σ → ι → σ} {allowed : σ → ι → Prop} {s₀ s : σ}

/-- The states reached from `s₀` by allowed inputs. -/
inductive Reaches (step : σ → ι → σ) (allowed : σ → ι → Prop) (s₀ : σ) : σ → Prop
  | start : Reaches step allowed s₀ s₀
  | next {s : σ} (i : ι) (h : Reaches step allowed s₀ s) (hi : allowed s i) : Reaches step allowed s₀ (step s i)

def anyInput (_ : σ) (_ : ι) : Prop := True

/-- **Invariant rule**. -/
theorem Reaches.invariant {P : σ → Prop} (h : Reaches step allowed s₀ s) (h0 : P s₀)
    (hstep : ∀ s i, Reaches step allowed s₀ s → P s → allowed s i → P (step s i)) : P s := by
  induction h with
  | start => exact h0
  | next i h hi ih => exact hstep _ i h ih hi

theorem Reaches.mono {allowed' : σ → ι → Prop} (h : Reaches step allowed s₀ s)
    (himp : ∀ s i, allowed s i → allowed' s i) : Reaches step allowed' s₀ s := by
  induction h with
  | start => exact .start
  | next i _ hi ih => exact ih.next i (himp _ i hi)

theorem Reaches.trans {s' : σ} (h : Reaches step allowed s₀ s) (h' : Reaches step allowed s s') :
    Reaches step allowed s₀ s' := by
  induction h' with
  | start => exact h
  | next i _ hi ih => exact ih.next i hi

def run (step : σ → ι → σ) (s : σ) (inputs : List ι) : σ := inputs.foldl step s

@[simp] theorem run_nil : run step s [] = s := rfl

@[simp] theorem run_cons {i : ι} {inputs : List ι} : run step s (i :: inputs) = run step (step s i) inputs := rfl

@[simp] theorem run_append {l r : List ι} : run step s (l ++ r) = run step (run step s l) r := by
  simp [run]

theorem reaches_pair {i j : ι} (hi : allowed s i) (hj : allowed (step s i) j) :
    Reaches step allowed s (run step s [i, j]) := .next j (.next i .start hi) hj

theorem reaches_inputs (inputs : List ι) (h : ∀ i ∈ inputs, ∀ s, allowed s i) :
    Reaches step allowed s (run step s inputs) := by
  induction inputs using List.reverseRecOn with
  | nil => exact .start
  | append_singleton l i ih =>
    rw [run_append]
    exact (ih fun j hj => h j (by simp [hj])).next i (h i (by simp) _)

theorem reaches_run (inputs : List ι) : Reaches step anyInput s (run step s inputs) :=
  reaches_inputs inputs fun _ _ _ => trivial

/-- **Run rule**: an invariant of the state and the inputs read so far. -/
theorem run_induction (step : σ → ι → σ) (s₀ : σ) {P : List ι → σ → Prop} (inputs : List ι) (h0 : P [] s₀)
    (hstep : ∀ l i, P l (run step s₀ l) → P (l ++ [i]) (step (run step s₀ l) i)) :
    P inputs (run step s₀ inputs) := by
  induction inputs using List.reverseRecOn with
  | nil => exact h0
  | append_singleton l i ih =>
    rw [run_append]
    exact hstep l i ih

/-- How many inputs of the run meet `p` in the state before them. -/
def countAlong (step : σ → ι → σ) (p : σ → ι → Bool) : σ → List ι → ℕ
  | _, [] => 0
  | s, i :: inputs => (p s i).toNat + countAlong step p (step s i) inputs

theorem countAlong_concat {p : σ → ι → Bool} (l : List ι) (i : ι) (s : σ) :
    countAlong step p s (l ++ [i]) = countAlong step p s l + (p (run step s l) i).toNat := by
  induction l generalizing s with
  | nil => simp [countAlong]
  | cons j l ih =>
    simp only [List.cons_append, countAlong, ih, run_cons]
    omega

end AnimaCore.Lib
