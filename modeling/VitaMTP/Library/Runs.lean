import Mathlib.Data.List.Basic

/-! Runs of a partial step function in which every step meets a condition. -/
namespace Runs

variable {σ ι : Type*} {step : σ → ι → Option σ} {allowed allowed' : σ → ι → Prop} {start : σ}

/-- The states reached from `start` by steps that meet `allowed`. -/
inductive Reached (step : σ → ι → Option σ) (allowed : σ → ι → Prop) (start : σ) : σ → Prop
  | start : Reached step allowed start start
  | step {s s' : σ} {i : ι} (h : Reached step allowed start s) (hi : allowed s i)
      (hs : step s i = some s') : Reached step allowed start s'

/-- What holds at the start and is kept by every such step holds in every such run. -/
theorem Reached.invariant {I : σ → Prop} (hstart : I start)
    (hstep : ∀ s i s', I s → allowed s i → step s i = some s' → I s') {s : σ}
    (h : Reached step allowed start s) : I s := by
  induction h with
  | start => exact hstart
  | step _ hi hs ih => exact hstep _ _ _ ih hi hs

def checked (step : σ → ι → Option σ) (allowed : σ → ι → Prop) [∀ s i, Decidable (allowed s i)]
    (s : σ) (i : ι) : Option σ :=
  if allowed s i then step s i else none

theorem Reached.runChecked [∀ s i, Decidable (allowed s i)] {inputs : List ι} {s s' : σ}
    (h : Reached step allowed start s) (hs : inputs.foldlM (checked step allowed) s = some s') :
    Reached step allowed start s' := by
  induction inputs generalizing s with
  | nil => exact Option.some.inj hs ▸ h
  | cons i inputs ih =>
    rw [List.foldlM_cons, Option.bind_eq_bind, Option.bind_eq_some_iff] at hs
    obtain ⟨s₁, hi, hs⟩ := hs
    unfold checked at hi
    split at hi
    · rename_i hallowed
      exact ih (h.step hallowed hi) hs
    · simp at hi

theorem Reached.run {inputs : List ι} {s s' : σ} (h : Reached step (fun _ _ => True) start s)
    (hs : inputs.foldlM step s = some s') : Reached step (fun _ _ => True) start s' := by
  induction inputs generalizing s with
  | nil => exact Option.some.inj hs ▸ h
  | cons i inputs ih =>
    rw [List.foldlM_cons, Option.bind_eq_bind, Option.bind_eq_some_iff] at hs
    obtain ⟨s₁, hi, hs⟩ := hs
    exact ih (h.step trivial hi) hs

end Runs
