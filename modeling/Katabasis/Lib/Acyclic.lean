import Mathlib.Tactic

set_option autoImplicit false

/-! # Depth in a finite acyclic relation

A relation without cycles whose targets are in a list: how many entries of the list can be
reached from an element goes down along the relation, so a recursion along it is no deeper than
the list is long.
-/

namespace Acyclic

variable {α : Type} [DecidableEq α] {r : α → α → Prop} {nodes : List α}

open scoped Classical in
/-- How many nodes are above an element. -/
noncomputable def depth (r : α → α → Prop) (nodes : List α) (a : α) : Nat :=
  (nodes.toFinset.filter (Relation.TransGen r a)).card

open scoped Classical in
theorem depth_le (r : α → α → Prop) (nodes : List α) (a : α) :
    depth r nodes a ≤ nodes.length := by
  unfold depth
  calc (nodes.toFinset.filter (Relation.TransGen r a)).card
      ≤ nodes.toFinset.card := Finset.card_filter_le ..
    _ ≤ nodes.length := nodes.toFinset_card_le

open scoped Classical in
/-- **One step up there are fewer nodes above.** -/
theorem depth_lt {a b : α} (hb : ¬ Relation.TransGen r b b) (h : r a b) (hmem : b ∈ nodes) :
    depth r nodes b < depth r nodes a := by
  unfold depth
  refine Finset.card_lt_card (Finset.ssubset_iff_subset_ne.mpr ⟨fun c hc => ?_, fun heq => ?_⟩)
  · rw [Finset.mem_filter] at hc ⊢
    exact ⟨hc.1, .head h hc.2⟩
  · -- `b` is above `a`, but not above itself
    have hin : b ∈ nodes.toFinset.filter (Relation.TransGen r a) :=
      Finset.mem_filter.mpr ⟨List.mem_toFinset.mpr hmem, .single h⟩
    rw [← heq, Finset.mem_filter] at hin
    exact hb hin.2

end Acyclic
