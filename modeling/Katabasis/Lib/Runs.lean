import Mathlib.Tactic

set_option autoImplicit false

/-! # Runs of a step function

The state after a list of events, the rules for what the events keep, for what one of them does
and for what depends on the events so far, and what a run puts out where each event adds to an
output.
-/

namespace Runs

variable {σ ε : Type} {step : σ → ε → σ}

/-- The state after the events. -/
def run (step : σ → ε → σ) (s : σ) (events : List ε) : σ := events.foldl step s

theorem run_nil (s : σ) : run step s [] = s := rfl

theorem run_cons (s : σ) (e : ε) (events : List ε) :
    run step s (e :: events) = run step (step s e) events := rfl

theorem run_append (s : σ) (first second : List ε) :
    run step s (first ++ second) = run step (run step s first) second := List.foldl_append

/-- **What every event of a run keeps, the run keeps.** -/
theorem run_keeps (P : σ → Prop) {events : List ε} {s : σ}
    (hstep : ∀ e ∈ events, ∀ s, P s → P (step s e)) (h : P s) : P (run step s events) := by
  induction events generalizing s with
  | nil => exact h
  | cons e rest ih =>
      exact ih (fun e' he' => hstep e' (List.mem_cons_of_mem _ he'))
        (hstep e List.mem_cons_self s h)

/-- **What an event does** in a state that the events keep, and no event undoes, is done at the end
of the run. -/
theorem run_does (P done : σ → Prop) {events : List ε} {e : ε} {s : σ} (he : e ∈ events)
    (hkeeps : ∀ s e, P s → P (step s e)) (hdoes : ∀ s, P s → done (step s e))
    (hstays : ∀ s e, done s → done (step s e)) (h : P s) : done (run step s events) := by
  induction events generalizing s with
  | nil => exact absurd he List.not_mem_nil
  | cons first rest ih =>
      rcases List.mem_cons.mp he with rfl | he
      · rw [run_cons]
        exact run_keeps done (fun e' _ s' => hstays s' e') (hdoes s h)
      · exact ih he (hkeeps s first h)

/-- **What holds after the events so far**, each event carrying it on. -/
theorem run_past (P : List ε → σ → Prop) {past events : List ε} {s : σ}
    (hstep : ∀ before e after, past ++ events = before ++ e :: after →
      ∀ s, P before s → P (before ++ [e]) (step s e))
    (h : P past s) : P (past ++ events) (run step s events) := by
  induction events generalizing past s with
  | nil => simpa [run_nil] using h
  | cons first rest ih =>
      have hsplit : past ++ first :: rest = past ++ [first] ++ rest := by simp
      rw [hsplit] at hstep ⊢
      exact ih hstep (hstep past first rest (by simp) s h)

/-- **What a run puts out**, each event in the state in front of it. -/
theorem mem_output {α : Type} {output : σ → List α} {emits : σ → ε → List α}
    (hstep : ∀ s e, output (step s e) = output s ++ emits s e) {events : List ε} {s : σ} {x : α} :
    x ∈ output (run step s events) ↔ x ∈ output s ∨
      ∃ before e after, events = before ++ e :: after ∧ x ∈ emits (run step s before) e := by
  induction events generalizing s with
  | nil => simp [run_nil]
  | cons first rest ih =>
      rw [run_cons, ih, hstep, List.mem_append, or_assoc]
      apply or_congr_right
      constructor
      · rintro (hfirst | ⟨before, e, after, rfl, hx⟩)
        · exact ⟨[], first, rest, rfl, hfirst⟩
        · exact ⟨first :: before, e, after, rfl, hx⟩
      · rintro ⟨before, e, after, hsplit, hx⟩
        cases before with
        | nil =>
            rw [List.nil_append] at hsplit
            injection hsplit with hhead htail
            subst hhead
            exact Or.inl hx
        | cons head before =>
            rw [List.cons_append] at hsplit
            injection hsplit with hhead htail
            subst hhead
            exact Or.inr ⟨before, e, after, htail, hx⟩

end Runs
