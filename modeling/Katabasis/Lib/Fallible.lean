import Mathlib.Tactic

set_option autoImplicit false

/-! # Fallible steps

Taking apart a successful run of computations that may stop with an error: a bind, a
map, a loop (`List.foldlM`) with an invariant, two loops side by side, and a list of results
(`List.mapM`).
-/

namespace Katabasis.Fallible

variable {ε α β σ : Type}

theorem bind_eq_ok {x : Except ε α} {f : α → Except ε β} {b : β} (h : x >>= f = .ok b) :
    ∃ a, x = .ok a ∧ f a = .ok b := by
  cases x with
  | error e => cases h
  | ok a => exact ⟨a, rfl, h⟩

theorem map_eq_ok {x : Except ε α} {f : α → β} {b : β} (h : x.map f = .ok b) :
    ∃ a, x = .ok a ∧ f a = b := by
  cases x with
  | error e => cases h
  | ok a => injection h with h; exact ⟨a, rfl, h⟩

theorem mapError_eq_ok {ε' : Type} {x : Except ε α} {f : ε → ε'} {a : α}
    (h : x.mapError f = .ok a) : x = .ok a := by
  cases x with
  | error e => cases h
  | ok b =>
      injection h with h
      rw [h]

/-- A loop of fallible steps keeps what every successful step keeps. -/
theorem foldlM_invariant {f : σ → α → Except ε σ} {P : σ → Prop}
    (hstep : ∀ s a s', f s a = .ok s' → P s → P s') {l : List α} {s s' : σ}
    (h : l.foldlM f s = .ok s') (hs : P s) : P s' := by
  induction l generalizing s with
  | nil => injection h with h; exact h ▸ hs
  | cons a rest ih =>
      rw [List.foldlM_cons] at h
      obtain ⟨s1, h1, h2⟩ := bind_eq_ok h
      exact ih h2 (hstep s a s1 h1 hs)

/-- Two loops over one list keep a relation that every two successful steps keep. -/
theorem foldlM_relation {τ : Type} {f : σ → α → Except ε σ} {g : τ → α → Except ε τ}
    {R : σ → τ → Prop} {l : List α}
    (hstep : ∀ a ∈ l, ∀ s t s' t', f s a = .ok s' → g t a = .ok t' → R s t → R s' t')
    {s s' : σ} {t t' : τ} (hf : l.foldlM f s = .ok s') (hg : l.foldlM g t = .ok t') (h : R s t) :
    R s' t' := by
  induction l generalizing s t with
  | nil =>
      injection hf with hf
      injection hg with hg
      rwa [← hf, ← hg]
  | cons a rest ih =>
      rw [List.foldlM_cons] at hf hg
      obtain ⟨s1, hf1, hf⟩ := bind_eq_ok hf
      obtain ⟨t1, hg1, hg⟩ := bind_eq_ok hg
      apply ih (fun b hb => hstep b (List.mem_cons_of_mem a hb)) hf hg
      exact hstep a List.mem_cons_self s t s1 t1 hf1 hg1 h

/-- The results are those of the elements, one by one. -/
theorem mapM_eq_ok_iff {f : α → Except ε β} {as : List α} {bs : List β} :
    as.mapM f = .ok bs ↔ List.Forall₂ (fun a b => f a = .ok b) as bs := by
  induction as generalizing bs with
  | nil =>
      rw [List.mapM_nil, List.forall₂_nil_left_iff]
      exact ⟨fun h => by injection h with h; exact h.symm, fun h => by rw [h]; rfl⟩
  | cons a rest ih =>
      rw [List.mapM_cons]
      constructor
      · intro h
        obtain ⟨b, hb, h⟩ := bind_eq_ok h
        obtain ⟨more, hmore, h⟩ := bind_eq_ok h
        injection h with h
        rw [← h]
        exact .cons hb (ih.mp hmore)
      · rintro (_ | ⟨hb, hmore⟩)
        rw [hb, ih.mpr hmore]
        rfl

/-- Every element has a result. -/
theorem exists_of_forall₂ {f : α → Except ε β} {as : List α} {bs : List β}
    (h : List.Forall₂ (fun a b => f a = .ok b) as bs) {a : α} (ha : a ∈ as) :
    ∃ b, f a = .ok b := by
  induction h with
  | nil => exact absurd ha List.not_mem_nil
  | cons hb _ ih =>
      rcases List.mem_cons.mp ha with rfl | ha
      · exact ⟨_, hb⟩
      · exact ih ha

end Katabasis.Fallible
