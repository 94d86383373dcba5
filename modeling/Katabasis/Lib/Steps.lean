import Mathlib.Tactic

set_option autoImplicit false

/-! # Steps that add

A relation between the states before and after a step, with the list of what the step adds. Over
the elements of a list, a step for each, what is added comes one after the other.
-/

namespace Steps

variable {σ α β : Type}

/-- No step adds nothing, and two steps add what both do. -/
structure Adds (R : List β → σ → σ → Prop) : Prop where
  refl : ∀ s, R [] s s
  trans : ∀ {first second s s' s''}, R first s s' → R second s' s'' → R (first ++ second) s s''

section

variable {R : List β → σ → σ → Prop} {added : α → List β}

theorem Adds.foldl (h : Adds R) {f : σ → α → σ} (hf : ∀ s a, R (added a) s (f s a)) (l : List α)
    (s : σ) : R (l.flatMap added) s (l.foldl f s) := by
  induction l generalizing s with
  | nil => exact h.refl s
  | cons a rest ih => exact h.trans (hf s a) (ih (f s a))

theorem Adds.foldlM (h : Adds R) {f : σ → α → Option σ}
    (hf : ∀ s a s', f s a = some s' → R (added a) s s') {l : List α} {s s' : σ}
    (hl : l.foldlM f s = some s') : R (l.flatMap added) s s' := by
  induction l generalizing s with
  | nil =>
      cases hl
      exact h.refl _
  | cons a rest ih =>
      rw [List.foldlM_cons] at hl
      obtain ⟨s₁, hstep, hrest⟩ := Option.bind_eq_some_iff.mp hl
      exact h.trans (hf s a s₁ hstep) (ih hrest)

/-- A step that adds nothing, in front. -/
theorem Adds.before (h : Adds R) {added : List β} {s s' s'' : σ} (hfirst : R [] s s')
    (hsecond : R added s' s'') : R added s s'' := h.trans hfirst hsecond

/-- A step that adds nothing, behind. -/
theorem Adds.after (h : Adds R) {added : List β} {s s' s'' : σ} (hfirst : R added s s')
    (hsecond : R [] s' s'') : R added s s'' := by
  have hboth := h.trans hfirst hsecond
  rwa [List.append_nil] at hboth

end

/-! ## The step of an element -/

section

variable {W : σ → σ → Prop}

theorem exists_foldl_step (hrefl : ∀ s, W s s) (htrans : ∀ {s s' s''}, W s s' → W s' s'' → W s s'')
    {f : σ → α → σ} (hf : ∀ s a, W s (f s a)) {l : List α} {a : α} (ha : a ∈ l) (s : σ) :
    ∃ s₁, W (f s₁ a) (l.foldl f s) := by
  have hfold : ∀ (l : List α) s, W s (l.foldl f s) := by
    intro l
    induction l with
    | nil => exact hrefl
    | cons b rest ih => exact fun s => htrans (hf s b) (ih _)
  induction l generalizing s with
  | nil => cases ha
  | cons b rest ih =>
      rcases List.mem_cons.mp ha with rfl | ha
      · exact ⟨s, hfold rest _⟩
      · exact ih ha (f s b)

theorem exists_foldlM_step (hrefl : ∀ s, W s s) (htrans : ∀ {s s' s''}, W s s' → W s' s'' → W s s'')
    {f : σ → α → Option σ} (hf : ∀ s a s', f s a = some s' → W s s') {l : List α} {a : α}
    (ha : a ∈ l) {s s' : σ} (h : l.foldlM f s = some s') :
    ∃ s₁ s₂, f s₁ a = some s₂ ∧ W s₂ s' := by
  have hfold : ∀ (l : List α) s, l.foldlM f s = some s' → W s s' := by
    intro l
    induction l with
    | nil =>
        rintro s ⟨⟩
        exact hrefl s'
    | cons b rest ih =>
        intro s h
        rw [List.foldlM_cons] at h
        obtain ⟨s₁, hstep, hrest⟩ := Option.bind_eq_some_iff.mp h
        exact htrans (hf s b s₁ hstep) (ih s₁ hrest)
  induction l generalizing s with
  | nil => cases ha
  | cons b rest ih =>
      rw [List.foldlM_cons] at h
      obtain ⟨s₁, hstep, hrest⟩ := Option.bind_eq_some_iff.mp h
      rcases List.mem_cons.mp ha with rfl | ha
      · exact ⟨s, s₁, hstep, hfold rest s₁ hrest⟩
      · exact ih ha hrest

end

end Steps
