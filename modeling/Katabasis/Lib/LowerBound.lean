import Mathlib.Tactic

set_option autoImplicit false

/-! # Binary search for a lower bound

The half-open search loop over indices: `low` moves past a `middle` that still satisfies the
predicate, `high` moves down to one that does not. The predicate is any that holds on an
initial segment of the range (`InitialSegment`), such as "the key at this index is below
the one looked for" on a sorted array.
-/

namespace Katabasis.LowerBound

/-- The search loop, with `fuel` rounds; `high - low` rounds are always enough. -/
def search (p : Nat → Bool) : Nat → Nat → Nat → Nat
  | 0, low, _ => low
  | fuel + 1, low, high =>
      if low < high then
        let middle := low + (high - low) / 2
        if p middle then search p fuel (middle + 1) high else search p fuel low middle
      else low

/-- The predicate holds on an initial segment of the indices. -/
def InitialSegment (p : Nat → Bool) (high : Nat) : Prop :=
  ∀ i j, i ≤ j → j < high → p j → p i

/-- Where the search ends: everything from `low` up to there satisfies the predicate, and
nothing from there on does. -/
theorem search_spec {p : Nat → Bool} :
    ∀ (fuel low high : Nat), InitialSegment p high → low ≤ high → high - low ≤ fuel →
      low ≤ search p fuel low high ∧ search p fuel low high ≤ high ∧
        (∀ i, low ≤ i → i < search p fuel low high → p i) ∧
        (∀ i, search p fuel low high ≤ i → i < high → ¬ p i) := by
  intro fuel
  induction fuel with
  | zero =>
      intro low high _ hle hfuel
      have : low = high := by omega
      subst this
      refine ⟨le_refl _, le_refl _, fun i h1 h2 => ?_, fun i h1 h2 => ?_⟩
      · simp only [search] at h2; omega
      · simp only [search] at h1; omega
  | succ fuel ih =>
      intro low high hp hle hfuel
      by_cases hlt : low < high
      · simp only [search, hlt, if_true]
        set middle := low + (high - low) / 2 with hmiddle
        have hmlt : middle < high := by omega
        by_cases hm : p middle
        · rw [if_pos hm]
          obtain ⟨h1, h2, h3, h4⟩ := ih (middle + 1) high hp (by omega) (by omega)
          refine ⟨by omega, h2, fun i hi hlo => ?_, h4⟩
          by_cases him : i ≤ middle
          · exact hp i middle him hmlt hm
          · exact h3 i (by omega) hlo
        · rw [if_neg hm]
          obtain ⟨h1, h2, h3, h4⟩ := ih low middle
            (fun i j hij hj => hp i j hij (hj.trans hmlt)) (by omega) (by omega)
          refine ⟨h1, by omega, h3, fun i hi hhi hpi => ?_⟩
          by_cases him : i < middle
          · exact h4 i hi him hpi
          · exact hm (hp middle i (by omega) hhi hpi)
      · simp only [search, hlt, if_false]
        refine ⟨le_refl _, hle, fun i h1 h2 => absurd h2 (by omega), fun i h1 h2 => ?_⟩
        omega

/-- The end of the search is the only index that separates the two parts. -/
theorem search_eq {p : Nat → Bool} {fuel high n : Nat} (hp : InitialSegment p high)
    (hfuel : high ≤ fuel) (hn : n ≤ high) (hbelow : ∀ i, i < n → p i)
    (habove : n < high → ¬ p n) : search p fuel 0 high = n := by
  obtain ⟨-, h2, h3, h4⟩ := search_spec fuel 0 high hp (Nat.zero_le _) (by omega)
  rcases Nat.lt_trichotomy (search p fuel 0 high) n with hlt | heq | hgt
  · exact absurd (hbelow _ hlt) (h4 _ (le_refl _) (by omega))
  · exact heq
  · exact absurd (h3 n (Nat.zero_le _) hgt) (habove (by omega))

end Katabasis.LowerBound
