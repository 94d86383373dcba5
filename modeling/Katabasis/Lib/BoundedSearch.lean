import Mathlib.Tactic

set_option autoImplicit false

/-! # Depth-bounded search

A depth-first search over an arbitrary directed graph that remembers no nodes: a node's own
answer, else the first answer of a search from one of its successors, with one step fewer to
go. It answers what the walks of at most so many steps reach, cycles or not.
-/

namespace BoundedSearch

variable {ν α : Type}

/-- The first answer within `left` steps. -/
def search (answer : ν → Option α) (next : ν → List ν) : Nat → ν → Option α
  | 0, v => answer v
  | left + 1, v => (answer v).or ((next v).findSome? (search answer next left))

/-- A walk of so many steps. -/
inductive Walk (next : ν → List ν) : Nat → ν → ν → Prop
  | here (v : ν) : Walk next 0 v v
  | step {n : Nat} {v w last : ν} : w ∈ next v → Walk next n w last → Walk next (n + 1) v last

variable {answer : ν → Option α} {next : ν → List ν}

/-- **What is found is the answer of a node that a short walk reaches.** -/
theorem walk_of_search {left : Nat} {v : ν} {a : α} (h : search answer next left v = some a) :
    ∃ n last, n ≤ left ∧ Walk next n v last ∧ answer last = some a := by
  induction left generalizing v with
  | zero => exact ⟨0, v, le_rfl, .here v, h⟩
  | succ left ih =>
      unfold search at h
      cases hv : answer v with
      | some b =>
          rw [hv] at h
          exact ⟨0, v, Nat.zero_le _, .here v, hv.trans h⟩
      | none =>
          rw [hv, Option.none_or] at h
          obtain ⟨w, hw, hsearch⟩ := List.exists_of_findSome?_eq_some h
          obtain ⟨n, last, hn, hwalk, hlast⟩ := ih hsearch
          exact ⟨n + 1, last, Nat.succ_le_succ hn, .step hw hwalk, hlast⟩

/-- **Whatever a short walk reaches, something is found.** -/
theorem search_of_walk {left n : Nat} {v last : ν} (hn : n ≤ left) (hwalk : Walk next n v last)
    (hlast : (answer last).isSome) : (search answer next left v).isSome := by
  induction hwalk generalizing left with
  | here v =>
      cases left with
      | zero => exact hlast
      | succ left =>
          unfold search
          rw [Option.isSome_or, hlast, Bool.true_or]
  | @step n v w last hw _ ih =>
      cases left with
      | zero => exact absurd hn (Nat.not_succ_le_zero n)
      | succ left =>
          have hrest := ih (Nat.le_of_succ_le_succ hn) hlast
          unfold search
          rw [Option.isSome_or, List.findSome?_isSome_iff.mpr ⟨w, hw, hrest⟩, Bool.or_true]

end BoundedSearch
