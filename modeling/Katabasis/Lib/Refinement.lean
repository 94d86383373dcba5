import Mathlib.Tactic

set_option autoImplicit false

/-! # Refinement of a step function by a step relation

A machine takes events one after the other; each gives an answer and the next state, or stops the
machine for a reason. `run` is a machine with a step function, `Runs` one whose steps are a
relation, so that it may have several.

When every step of the first is a step of the second, from states that belong together to states
that belong together, then so is every run (`run_refines`). What the second machine asks of its
events is a condition on each of them (`Allowed`).
-/

namespace Refinement

variable {σ τ ε ρ χ : Type}

/-- The answers of a machine, and why it stopped, if it did. -/
def run (f : σ → ε → Except χ (ρ × σ)) : σ → List ε → List ρ × Option χ
  | _, [] => ([], none)
  | s, e :: rest =>
      match f s e with
      | .error x => ([], some x)
      | .ok (r, s') =>
          let answers := run f s' rest
          (r :: answers.1, answers.2)

/-- The runs of a step relation. -/
inductive Runs (step : τ → ε → Except χ (ρ × τ) → Prop) : τ → List ε → List ρ → Option χ → Prop
  | nil (t : τ) : Runs step t [] [] none
  | next {t t' : τ} {e : ε} {r : ρ} {rest : List ε} {answers : List ρ} {x : Option χ} :
      step t e (.ok (r, t')) → Runs step t' rest answers x →
        Runs step t (e :: rest) (r :: answers) x
  | stop {t : τ} {e : ε} {rest : List ε} {x : χ} :
      step t e (.error x) → Runs step t (e :: rest) [] (some x)

/-- Each event meets the condition in every state that the events in front of it can lead to. -/
def Allowed (step : τ → ε → Except χ (ρ × τ) → Prop) (ok : τ → ε → Prop) : τ → List ε → Prop
  | _, [] => True
  | t, e :: rest => ok t e ∧ ∀ r t', step t e (.ok (r, t')) → Allowed step ok t' rest

variable {f : σ → ε → Except χ (ρ × σ)} {step : τ → ε → Except χ (ρ × τ) → Prop}
  {ok : τ → ε → Prop} {R : σ → τ → Prop}

/-- A step of the machine is a step of the relation, and the states behind it belong together. -/
def Matched (step : τ → ε → Except χ (ρ × τ) → Prop) (R : σ → τ → Prop) (t : τ) (e : ε) :
    Except χ (ρ × σ) → Prop
  | .error x => step t e (.error x)
  | .ok (r, s') => ∃ t', step t e (.ok (r, t')) ∧ R s' t'

/-- **Every run of the machine is a run of the relation.** -/
theorem run_refines (hstep : ∀ s t e, R s t → ok t e → Matched step R t e (f s e))
    {events : List ε} {s : σ} {t : τ} (h : R s t) (hok : Allowed step ok t events) :
    Runs step t events (run f s events).1 (run f s events).2 := by
  induction events generalizing s t with
  | nil => exact .nil t
  | cons e rest ih =>
      have hmatched := hstep s t e h hok.1
      rw [run]
      cases hf : f s e with
      | error x =>
          rw [hf] at hmatched
          exact .stop hmatched
      | ok result =>
          obtain ⟨r, s'⟩ := result
          rw [hf] at hmatched
          obtain ⟨t', hstep', hrelated⟩ := hmatched
          exact .next hstep' (ih hrelated (hok.2 r t' hstep'))

/-- A reason that no allowed step stops for is not the reason a run stops for. -/
theorem Runs.ne_stop {x : χ} (hno : ∀ t e, ok t e → ¬ step t e (.error x)) {t : τ}
    {events : List ε} {answers : List ρ} {reason : Option χ} (h : Runs step t events answers reason)
    (hok : Allowed step ok t events) : reason ≠ some x := by
  induction h with
  | nil t => exact (Option.some_ne_none x).symm
  | next hstep _ ih => exact ih (hok.2 _ _ hstep)
  | stop hstep =>
      rintro ⟨⟩
      exact hno _ _ hok.1 hstep

end Refinement
