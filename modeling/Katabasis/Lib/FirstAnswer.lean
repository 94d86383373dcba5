import Mathlib.Tactic

set_option autoImplicit false

/-! # The first answer of a list of candidates

A search that tries alternatives in a fixed order and takes the first that answers is
`List.findSome?` over the list of its candidates. This file compares two searches over the
same candidates, one of which answers more of them: the second keeps an answer of the
first unless an earlier candidate, silent in the first search, answers in the second.
-/

namespace Katabasis.FirstAnswer

variable {α β γ : Type}

/-! ## Candidates made from other lists -/

theorem findSome?_filterMap (f : α → Option β) (g : γ → Option α) (l : List γ) :
    (l.filterMap g).findSome? f = l.findSome? fun x => (g x).bind f := by
  rw [← List.head?_filterMap, List.filterMap_filterMap, List.head?_filterMap]

theorem findSome?_flatMap (f : α → Option β) (g : γ → List α) (l : List γ) :
    (l.flatMap g).findSome? f = l.findSome? fun x => (g x).findSome? f := by
  rw [← List.head?_filterMap, List.filterMap_flatMap, List.head?_flatMap]
  simp only [List.head?_filterMap]

theorem findSome?_congr {f g : α → Option β} {l : List α} (h : ∀ x ∈ l, f x = g x) :
    l.findSome? f = l.findSome? g := by
  rw [← List.head?_filterMap, ← List.head?_filterMap, List.filterMap_congr h]

/-! ## Extending the answers -/

/-- `g` answers every candidate that `f` answers, and answers it the same. -/
def Extends (f g : α → Option β) : Prop := ∀ x b, f x = some b → g x = some b

/-- Where the first search stops, and what it passed on the way. -/
theorem findSome?_eq_some_split {f : α → Option β} {l : List α} {b : β} :
    l.findSome? f = some b ↔
      ∃ before x after, l = before ++ x :: after ∧ (∀ y ∈ before, f y = none) ∧ f x = some b := by
  rw [List.findSome?_eq_some_iff]
  constructor
  · rintro ⟨before, x, after, hl, hx, hb⟩
    exact ⟨before, x, after, hl, hb, hx⟩
  · rintro ⟨before, x, after, hl, hb, hx⟩
    exact ⟨before, x, after, hl, hx, hb⟩

/-- The extended search over a list whose answer is known for a prefix: the prefix's answer
comes first. -/
theorem findSome?_append_cons {g : α → Option β} {before after : List α} {x : α} {b : β}
    (hx : g x = some b) :
    (before ++ x :: after).findSome? g = some ((before.findSome? g).getD b) := by
  rw [List.findSome?_append, List.findSome?_cons, hx]
  cases before.findSome? g <;> rfl

/-- **When an extended search keeps every answer.** Exactly when, before the candidate the
first search takes, the second search finds nothing, or finds the very same answer. -/
theorem keeps_answers_iff {f g : α → Option β} (hfg : Extends f g) (l : List α) :
    (∀ b, l.findSome? f = some b → l.findSome? g = some b) ↔
      ∀ before x after b, l = before ++ x :: after → (∀ y ∈ before, f y = none) →
        f x = some b → ∀ c, before.findSome? g = some c → c = b := by
  constructor
  · intro h before x after b hl hbefore hx c hc
    have hkeep := h b (findSome?_eq_some_split.mpr ⟨before, x, after, hl, hbefore, hx⟩)
    rw [hl, findSome?_append_cons (hfg x b hx), hc] at hkeep
    simpa using hkeep
  · intro h b hb
    obtain ⟨before, x, after, hl, hbefore, hx⟩ := findSome?_eq_some_split.mp hb
    rw [hl, findSome?_append_cons (hfg x b hx)]
    cases hc : before.findSome? g with
    | none => rfl
    | some c => rw [h before x after b hl hbefore hx c hc]; rfl

end Katabasis.FirstAnswer
