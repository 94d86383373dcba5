import Mathlib.Tactic

set_option autoImplicit false

/-! # Long division, bit by bit

The digits of `n` above position `i` have been divided by `d`: they give the digits of the
quotient above `i`, and a remainder. `Divided.append` appends the next digit of `n` to the
remainder, and says when the divisor is taken from it. At position 0 all of `n` is divided
(`Divided.finish`).
-/

namespace LongDivision

/-- The digits of `n` from position `i` on are divided by `d`; those of the quotient below `i`
are still 0. -/
structure Divided (n d i quotient remainder : Nat) : Prop where
  digits : n / 2 ^ i = quotient / 2 ^ i * d + remainder
  open_low : quotient % 2 ^ i = 0
  small : remainder < d

variable {n d i quotient remainder : Nat}

/-- Above the highest digit there is nothing to divide. -/
theorem divided_start (hn : n < 2 ^ i) (hd : 0 < d) : Divided n d i 0 0 where
  digits := by rw [Nat.div_eq_of_lt hn, Nat.zero_div, Nat.zero_mul]
  open_low := Nat.zero_mod _
  small := hd

/-- All of `n` is divided. -/
theorem Divided.finish (h : Divided n d 0 quotient remainder) :
    n = quotient * d + remainder ∧ remainder < d := by
  have hdigits := h.digits
  rw [pow_zero, Nat.div_one, Nat.div_one] at hdigits
  exact ⟨hdigits, h.small⟩

theorem div_pow_digit (m i : Nat) : m / 2 ^ i = 2 * (m / 2 ^ (i + 1)) + m / 2 ^ i % 2 := by
  have hhalf : m / 2 ^ (i + 1) = m / 2 ^ i / 2 := by rw [pow_succ, Nat.div_div_eq_div_mul]
  omega

/-- A number whose digits up to `i` are 0, as a multiple of the power. -/
theorem div_pow_of_open {m i : Nat} (h : m % 2 ^ (i + 1) = 0) :
    m / 2 ^ i = 2 * (m / 2 ^ (i + 1)) ∧ m % 2 ^ i = 0 := by
  obtain ⟨k, rfl⟩ := Nat.dvd_of_mod_eq_zero h
  have hpos : 0 < 2 ^ i := Nat.two_pow_pos i
  constructor
  · rw [Nat.mul_div_cancel_left k (Nat.two_pow_pos (i + 1)), pow_succ, Nat.mul_assoc,
      Nat.mul_div_cancel_left _ hpos]
  · rw [pow_succ, Nat.mul_assoc]
    exact Nat.mul_mod_right _ _

/-- **The next digit.** Where the remainder with the digit behind it is below the divisor, the
digit of the quotient is 0, and otherwise it is 1 and the divisor is taken from the remainder. -/
theorem Divided.append (h : Divided n d (i + 1) quotient remainder) :
    (2 * remainder + n / 2 ^ i % 2 < d →
      Divided n d i quotient (2 * remainder + n / 2 ^ i % 2)) ∧
    (d ≤ 2 * remainder + n / 2 ^ i % 2 →
      Divided n d i (quotient + 2 ^ i) (2 * remainder + n / 2 ^ i % 2 - d)) := by
  obtain ⟨hquotient, hopen⟩ := div_pow_of_open h.open_low
  have hpos : 0 < 2 ^ i := Nat.two_pow_pos i
  -- the digits down to `i` are those down to `i + 1`, doubled, with the new one behind them
  have hdigits : n / 2 ^ i
      = quotient / 2 ^ i * d + (2 * remainder + n / 2 ^ i % 2) := by
    calc n / 2 ^ i = 2 * (n / 2 ^ (i + 1)) + n / 2 ^ i % 2 := div_pow_digit n i
      _ = 2 * (quotient / 2 ^ (i + 1) * d + remainder) + n / 2 ^ i % 2 := by rw [h.digits]
      _ = quotient / 2 ^ i * d + (2 * remainder + n / 2 ^ i % 2) := by rw [hquotient]; ring
  have hsmall := h.small
  constructor
  · intro hlt
    exact ⟨hdigits, hopen, hlt⟩
  · intro hle
    refine ⟨?_, ?_, by omega⟩
    · rw [Nat.add_div_right quotient hpos, Nat.succ_mul, hdigits]
      omega
    · rw [Nat.add_mod_right, hopen]

end LongDivision
