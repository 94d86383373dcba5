import Mathlib.Tactic

set_option autoImplicit false

/-! # Integers of a width

The integer types of C by their width and signedness: the values a type has (`InRange`), and the
conversion to a type, which keeps a value modulo a power of two (`wrap`). A value of a type is
the one that conversion gives; what was converted to a wider type on the way is not changed by
it.
-/

namespace Katabasis.CIntegers

/-- The least value of a type. -/
def lowest (signed : Bool) (bits : Nat) : Int := if signed then -2 ^ (bits - 1) else 0

/-- The greatest value of a type. -/
def highest (signed : Bool) (bits : Nat) : Int :=
  if signed then 2 ^ (bits - 1) - 1 else 2 ^ bits - 1

/-- The values of a type. -/
def InRange (signed : Bool) (bits : Nat) (x : Int) : Prop :=
  lowest signed bits ≤ x ∧ x ≤ highest signed bits

instance (signed : Bool) (bits : Nat) (x : Int) : Decidable (InRange signed bits x) :=
  inferInstanceAs (Decidable (_ ∧ _))

/-- The conversion of an integer to a type. -/
def wrap (signed : Bool) (bits : Nat) (x : Int) : Int :=
  if signed then x.bmod (2 ^ bits) else x % 2 ^ bits

theorem two_mul_pow_pred {bits : Nat} (h : 0 < bits) : (2 : Int) * 2 ^ (bits - 1) = 2 ^ bits := by
  obtain ⟨n, rfl⟩ := Nat.exists_eq_succ_of_ne_zero h.ne'
  rw [Nat.succ_sub_one, pow_succ, mul_comm]

/-- **A value of the type is converted to itself.** -/
theorem wrap_of_inRange {signed : Bool} {bits : Nat} {x : Int} (hbits : 0 < bits)
    (h : InRange signed bits x) : wrap signed bits x = x := by
  obtain ⟨hlow, hhigh⟩ := h
  have hpow := two_mul_pow_pred hbits
  cases signed with
  | true =>
      simp only [lowest, highest, if_true] at hlow hhigh
      show x.bmod (2 ^ bits) = x
      exact Int.bmod_eq_of_le_mul_two (by push_cast; omega) (by push_cast; omega)
  | false =>
      simp only [lowest, highest, Bool.false_eq_true, if_false] at hlow hhigh
      exact Int.emod_eq_of_lt hlow (by omega)

/-- A conversion keeps the value modulo the power. -/
theorem wrap_emod (signed : Bool) (bits : Nat) (x : Int) :
    wrap signed bits x % 2 ^ bits = x % 2 ^ bits := by
  cases signed with
  | true =>
      show x.bmod (2 ^ bits) % 2 ^ bits = x % 2 ^ bits
      have h := Int.bmod_emod (x := x) (m := 2 ^ bits)
      push_cast at h
      exact h
  | false => exact Int.emod_emod_of_dvd x (dvd_refl _)

/-- The conversion depends only on the value modulo the power. -/
theorem wrap_congr {signed : Bool} {bits : Nat} {x y : Int} (h : x % 2 ^ bits = y % 2 ^ bits) :
    wrap signed bits x = wrap signed bits y := by
  cases signed with
  | true =>
      have hx := Int.emod_bmod (x := x) (n := 2 ^ bits)
      have hy := Int.emod_bmod (x := y) (n := 2 ^ bits)
      push_cast at hx hy
      show x.bmod (2 ^ bits) = y.bmod (2 ^ bits)
      rw [← hx, h, hy]
  | false => exact h

/-- The conversion to a wider type on the way makes no difference. -/
theorem wrap_wrap {signed signed' : Bool} {bits bits' : Nat} (h : bits ≤ bits') (x : Int) :
    wrap signed bits (wrap signed' bits' x) = wrap signed bits x := by
  apply wrap_congr
  have hdvd : (2 : Int) ^ bits ∣ 2 ^ bits' := pow_dvd_pow 2 h
  calc wrap signed' bits' x % 2 ^ bits
      = wrap signed' bits' x % 2 ^ bits' % 2 ^ bits := (Int.emod_emod_of_dvd _ hdvd).symm
    _ = x % 2 ^ bits' % 2 ^ bits := by rw [wrap_emod]
    _ = x % 2 ^ bits := Int.emod_emod_of_dvd _ hdvd

/-- **A value that was converted to a wider type is converted back to itself.** -/
theorem wrap_wrap_of_inRange {signed signed' : Bool} {bits bits' : Nat} {x : Int}
    (hbits : 0 < bits) (h : bits ≤ bits') (hx : InRange signed bits x) :
    wrap signed bits (wrap signed' bits' x) = x := by
  rw [wrap_wrap h, wrap_of_inRange hbits hx]

/-- A conversion gives a value of the type. -/
theorem inRange_wrap (signed : Bool) {bits : Nat} (hbits : 0 < bits) (x : Int) :
    InRange signed bits (wrap signed bits x) := by
  have hpow := two_mul_pow_pred hbits
  have hpos : (0 : Int) < 2 ^ (bits - 1) := by positivity
  cases signed with
  | true =>
      have hle := Int.le_bmod (x := x) (m := 2 ^ bits) (by positivity)
      have hlt := Int.bmod_lt (x := x) (m := 2 ^ bits) (by positivity)
      push_cast at hle hlt
      simp only [InRange, lowest, highest, wrap, if_true]
      omega
  | false =>
      have hne : (2 : Int) ^ bits ≠ 0 := by omega
      have hlt := Int.emod_lt_of_pos x (b := 2 ^ bits) (by omega)
      have hle := Int.emod_nonneg x hne
      simp only [InRange, lowest, highest, wrap, Bool.false_eq_true, if_false]
      omega

/-- The conversion tells apart what the power tells apart. -/
theorem wrap_eq_iff {signed : Bool} {bits : Nat} {x y : Int} :
    wrap signed bits x = wrap signed bits y ↔ x % 2 ^ bits = y % 2 ^ bits := by
  refine ⟨fun h => ?_, wrap_congr⟩
  rw [← wrap_emod signed bits x, h, wrap_emod]

/-- Two numbers that are closer than the power are told apart by the conversion. -/
theorem wrap_inj {bits : Nat} {x z : Int} (hclose : x - z < 2 ^ bits ∧ z - x < 2 ^ bits) :
    wrap false bits x = wrap false bits z ↔ x = z := by
  refine ⟨fun h => ?_, fun h => by rw [h]⟩
  have hdvd : (2 : Int) ^ bits ∣ x - z := Int.ModEq.dvd (show z % _ = x % _ from h.symm)
  have hzero := Int.eq_zero_of_abs_lt_dvd hdvd (abs_lt.mpr ⟨by omega, hclose.1⟩)
  omega

/-- A narrower conversion is the same as a wider one where the wider one gives a value of the
narrower type. -/
theorem wrap_eq_wrap_iff {signed : Bool} {bits bits' : Nat} (hbits : 0 < bits) (h : bits ≤ bits')
    {x : Int} : wrap signed bits x = wrap signed bits' x ↔
      InRange signed bits (wrap signed bits' x) := by
  constructor
  · intro heq
    rw [← heq]
    exact inRange_wrap signed hbits x
  · intro hrange
    have hwrap : wrap signed bits (wrap signed bits' x) = wrap signed bits x := wrap_wrap h x
    rw [← hwrap, wrap_of_inRange hbits hrange]

/-- A wider type of the same signedness has all values of a narrower one. -/
theorem lowest_le_lowest {signed : Bool} {bits bits' : Nat} (h : bits ≤ bits') :
    lowest signed bits' ≤ lowest signed bits := by
  cases signed with
  | true =>
      have : (2 : Int) ^ (bits - 1) ≤ 2 ^ (bits' - 1) :=
        pow_le_pow_right₀ (by decide) (by omega)
      simp only [lowest, if_true]
      omega
  | false => exact Int.le_refl _

theorem highest_le_highest {signed : Bool} {bits bits' : Nat} (h : bits ≤ bits') :
    highest signed bits ≤ highest signed bits' := by
  have hpred : (2 : Int) ^ (bits - 1) ≤ 2 ^ (bits' - 1) :=
    pow_le_pow_right₀ (by decide) (by omega)
  have hpow : (2 : Int) ^ bits ≤ 2 ^ bits' := pow_le_pow_right₀ (by decide) h
  cases signed with
  | true => simp only [highest, if_true]; omega
  | false => simp only [highest, Bool.false_eq_true, if_false]; omega

theorem lowest_le_highest {signed : Bool} (bits : Nat) :
    lowest signed bits ≤ highest signed bits := by
  have hpred : (0 : Int) < 2 ^ (bits - 1) := by positivity
  have hpow : (0 : Int) < 2 ^ bits := by positivity
  cases signed with
  | true => simp only [lowest, highest, if_true]; omega
  | false => simp only [lowest, highest, Bool.false_eq_true, if_false]; omega

end Katabasis.CIntegers
