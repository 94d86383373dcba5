import Katabasis.Xlgen.Scalars

set_option autoImplicit false

/-! # Integers of two types

What `ScalarToHost` and `ScalarToGuest` make of an integer whose type has any width and
signedness on the two sides, if it is no wider on the host: a `long`, an `NSInteger`, or a `BOOL`,
which is unsigned on the guest and signed on the host.

The lower bits of a guest's integer are what the host is passed, unless it is a bound of a signed
type that is narrower on the host (`lowerBits_eq_iff`). A host's integer is what the guest is
passed, unless it is a bound (`widened_eq_iff`).
-/

namespace Katabasis

namespace IntegerPairs

open CIntegers

variable {w w' : IntWidth} {signed signed' : Bool} {y : Int}

/-- The `Value` of an integer. -/
abbrev pair (w w' : IntWidth) (signed signed' : Bool) : Value :=
  classify (.integer w signed) (.integer w' signed')

/-! ## To the host -/

theorem width_pos (w : IntWidth) : 0 < w.bits := by cases w <;> decide

theorem width_le (w : IntWidth) : w.bits ≤ 64 := by cases w <;> decide

/-- The bounds of a signed type are told from those of a narrower one by the lower bits, and the
greatest value of an unsigned type is not. -/
theorem bounds_emod (h : w'.bits < w.bits) :
    highest true w.bits % 2 ^ w'.bits ≠ highest true w'.bits % 2 ^ w'.bits ∧
      lowest true w.bits % 2 ^ w'.bits ≠ lowest true w'.bits % 2 ^ w'.bits ∧
      highest false w.bits % 2 ^ w'.bits = highest false w'.bits % 2 ^ w'.bits := by
  cases w <;> cases w' <;> first | exact absurd h (by decide) | decide

/-- What the bridge makes of a guest's integer: the bounds of the guest's type become those of the
host's width, any other value stays. -/
theorem integerToHost_spec (hle : w'.bits ≤ w.bits) {x y : Int}
    (hx : InRange signed w.bits x) {id : String} {index : Nat}
    (h : integerToHost (pair w w' signed signed') (wrap false 64 x) id
      index = .ok y) :
    ∃ z, y = wrap signed' w'.bits z ∧ InRange signed w'.bits z ∧
      (z = x ∨ w'.bits < w.bits ∧ (x = highest signed w.bits ∧ z = highest signed w'.bits ∨
        signed = true ∧ x = lowest signed w.bits ∧ z = lowest signed w'.bits)) := by
  have hslot : ∀ signed'', wrap signed'' 64 (wrap false 64 x) = wrap signed'' 64 x := fun _ =>
    wrap_wrap (Nat.le_refl _) x
  have hself : wrap signed 64 x = x := by
    refine wrap_of_inRange (by decide) ⟨?_, ?_⟩
    · exact Int.le_trans (lowest_le_lowest (width_le w)) hx.1
    · exact Int.le_trans hx.2 (highest_le_highest (width_le w))
  have hends : InRange signed w'.bits (highest signed w'.bits) ∧
      InRange signed w'.bits (lowest signed w'.bits) :=
    ⟨⟨lowest_le_highest _, Int.le_refl _⟩, ⟨Int.le_refl _, lowest_le_highest _⟩⟩
  unfold integerToHost at h
  simp only [pair, classify, CType.hostBits, CType.isSigned, hslot, bound_max, bound_min] at h
  by_cases hlt : w'.bits < w.bits
  · rw [if_pos hlt] at h
    cases signed with
    | true =>
        simp only [if_true, hself, xlNarrowSigned] at h
        by_cases hmax : x = highest true w.bits
        · rw [if_pos hmax] at h
          injection h with h
          exact ⟨_, h.symm, hends.1, .inr ⟨hlt, .inl ⟨hmax, rfl⟩⟩⟩
        rw [if_neg hmax] at h
        by_cases hmin : x = lowest true w.bits
        · rw [if_pos hmin] at h
          injection h with h
          exact ⟨_, h.symm, hends.2, .inr ⟨hlt, .inr ⟨rfl, hmin, rfl⟩⟩⟩
        rw [if_neg hmin] at h
        by_cases hout : x < lowest true w'.bits ∨ highest true w'.bits < x
        · rw [if_pos hout] at h
          cases h
        · rw [if_neg hout] at h
          injection h with h
          exact ⟨_, h.symm, ⟨by omega, by omega⟩, .inl rfl⟩
    | false =>
        simp only [Bool.false_eq_true, if_false, hself, xlNarrowUnsigned] at h
        by_cases hmax : x = highest false w.bits
        · rw [if_pos hmax] at h
          injection h with h
          exact ⟨_, h.symm, hends.1, .inr ⟨hlt, .inl ⟨hmax, rfl⟩⟩⟩
        rw [if_neg hmax] at h
        by_cases hout : highest false w'.bits < x
        · rw [if_pos hout] at h
          cases h
        · rw [if_neg hout] at h
          injection h with h
          exact ⟨_, h.symm, ⟨hx.1, by omega⟩, .inl rfl⟩
  · rw [if_neg hlt] at h
    injection h with h
    have hsame : w'.bits = w.bits := by omega
    refine ⟨x, ?_, by rw [hsame]; exact hx, .inl rfl⟩
    rw [← h]
    exact wrap_wrap (width_le w') x

/-- The lower bits are what the bridge passes, unless it passes the bound of another type. -/
theorem lowerBits_eq_iff (hle : w'.bits ≤ w.bits) {x y : Int} (hx : InRange signed w.bits x)
    {id : String} {index : Nat}
    (h : integerToHost (pair w w' signed signed') (wrap false 64 x) id
      index = .ok y) :
    wrap signed' w'.bits x = y ↔ (w'.bits < w.bits → signed = true →
      x ≠ highest true w.bits ∧ x ≠ lowest true w.bits) := by
  obtain ⟨z, rfl, hz, rfl | ⟨hlt, ⟨rfl, rfl⟩ | ⟨rfl, rfl, rfl⟩⟩⟩ := integerToHost_spec hle hx h
  · refine ⟨fun _ hlt hsigned => ?_, fun _ => rfl⟩
    subst hsigned
    obtain ⟨hmax, hmin, -⟩ := bounds_emod hlt
    have hrange : highest true w'.bits < highest true w.bits ∧
        lowest true w.bits < lowest true w'.bits := by
      have : (2 : Int) ^ (w'.bits - 1) < 2 ^ (w.bits - 1) :=
        pow_lt_pow_right₀ (by decide) (by have := width_pos w'; omega)
      simp only [highest, lowest, if_true]
      omega
    obtain ⟨h1, h2⟩ := hz
    exact ⟨by omega, by omega⟩
  · rw [wrap_eq_iff]
    cases signed with
    | true =>
        exact ⟨fun heq => absurd heq (bounds_emod hlt).1, fun hno => ((hno hlt rfl).1 rfl).elim⟩
    | false => exact ⟨fun _ _ hsigned => (by cases hsigned), fun _ => (bounds_emod hlt).2.2⟩
  · rw [wrap_eq_iff]
    exact ⟨fun heq => absurd heq (bounds_emod hlt).2.1, fun hno => ((hno hlt rfl).2 rfl).elim⟩

/-- The bridge passes zero for nothing else. -/
theorem eq_zero_of_integerToHost (hle : w'.bits ≤ w.bits) {x : Int}
    (hx : InRange signed w.bits x) {id : String} {index : Nat}
    (h : integerToHost (pair w w' signed signed') (wrap false 64 x) id
      index = .ok 0) : x = 0 := by
  obtain ⟨z, hy, hz, hcase⟩ := integerToHost_spec hle hx h
  have hzero : z = 0 := by
    have hmod : z % 2 ^ w'.bits = 0 % 2 ^ w'.bits := by
      rw [← wrap_emod signed' w'.bits z, ← hy]
    calc z = wrap signed w'.bits z := (wrap_of_inRange (width_pos w') hz).symm
      _ = wrap signed w'.bits 0 := wrap_congr hmod
      _ = 0 := by cases signed <;> cases w' <;> decide
  rcases hcase with rfl | ⟨-, ⟨-, hbound⟩ | ⟨rfl, -, hbound⟩⟩
  · exact hzero
  · rw [hzero] at hbound
    cases signed <;> cases w' <;> exact absurd hbound (by decide)
  · rw [hzero] at hbound
    cases w' <;> exact absurd hbound (by decide)

/-! ## To the guest -/

/-- The bounds of the widths. -/
theorem bounds_of_inRange (h : InRange signed w.bits y) :
    -2 ^ 63 ≤ y ∧ y < 2 ^ 64 ∧ (w.bits < 64 → -2 ^ 31 ≤ y ∧ y < 2 ^ 32) ∧
      (w.bits < 32 → -2 ^ 15 ≤ y ∧ y < 2 ^ 16) := by
  cases signed <;> cases w <;>
    simp only [InRange, lowest, highest, IntWidth.bits, if_true, Bool.false_eq_true, if_false]
      at h ⊢ <;>
    omega

/-- Where the width is the same, nothing is widened. -/
theorem widened_same (hsame : w'.bits = w.bits) : (pair w w' signed signed').widened y = y := by
  unfold Value.widened
  simp only [pair, classify, CType.hostBits, hsame]
  split
  case isTrue h => exact h.symm
  case isFalse =>
    split
    case isTrue h => exact h.2.symm
    case isFalse => rfl

/-- What the guest is passed for a host's integer. -/
theorem integerToGuest_spec (hle : w'.bits ≤ w.bits) (hy : InRange signed' w'.bits y) :
    integerToGuest (pair w w' signed signed') y
      = wrap false 64 ((pair w w' signed signed').widened y) := by
  obtain ⟨hlow, hhigh, hnarrow, -⟩ := bounds_of_inRange hy
  by_cases hlt : w'.bits < w.bits
  · have hw' : w'.bits < 64 := Nat.lt_of_lt_of_le hlt (width_le w)
    obtain ⟨hlow', hhigh'⟩ := hnarrow hw'
    unfold integerToGuest Value.widened
    simp only [pair, classify, CType.hostBits, bound_max, bound_min, if_pos hlt]
    cases signed with
    | true =>
        have hself : wrap true 64 y = y := wrap_of_inRange (by decide) (by
          simp only [InRange, lowest, highest, if_true]
          omega)
        simp only [if_true, hself, xlWidenSigned, true_and]
    | false =>
        have hend : wrap false 64 (highest false w'.bits) = highest false w'.bits := by
          cases w' <;> decide
        have hend' : wrap false 64 (highest false w.bits) = highest false w.bits := by
          cases w <;> decide
        have hbound : 0 ≤ highest false w'.bits ∧ highest false w'.bits < 2 ^ 32 := by
          cases w' <;> first | decide | exact absurd hw' (by decide)
        have hiff : wrap false 64 y = highest false w'.bits ↔ y = highest false w'.bits := by
          have h := @wrap_inj 64 y (highest false w'.bits) ⟨by omega, by omega⟩
          rw [hend] at h
          exact h
        simp only [Bool.false_eq_true, if_false, xlWidenUnsigned, false_and, hiff]
        by_cases hmax : y = highest false w'.bits
        · rw [if_pos hmax, if_pos hmax, hend']
        · rw [if_neg hmax, if_neg hmax]
  · rw [widened_same (by omega)]
    have hnot : ¬ (pair w w' signed signed').hostBits < (pair w w' signed signed').guestBits := hlt
    unfold integerToGuest
    rw [if_neg hnot]
    cases signed with
    | true =>
        show wrap false 64 (wrap true 64 y) = wrap false 64 y
        exact wrap_wrap (Nat.le_refl _) y
    | false => rfl

/-- **Only the bounds are widened**, and to something else. -/
theorem widened_eq_iff (hle : w'.bits ≤ w.bits) :
    (pair w w' signed signed').widened y = y ↔ (w'.bits < w.bits → y ≠ highest signed w'.bits ∧
      (signed = true → y ≠ lowest signed w'.bits)) := by
  by_cases hlt : w'.bits < w.bits
  · have hends : highest signed w.bits ≠ highest signed w'.bits ∧
        (signed = true → lowest signed w.bits ≠ lowest signed w'.bits) := by
      cases signed <;> cases w <;> cases w' <;> first | exact absurd hlt (by decide) | decide
    obtain ⟨hmax, hmin⟩ := hends
    show (if y = highest signed w'.bits then highest signed w.bits
      else if signed = true ∧ y = lowest signed w'.bits then lowest signed w.bits else y) = y ↔ _
    by_cases heq : y = highest signed w'.bits
    · rw [if_pos heq]
      exact iff_of_false (fun h => hmax (h.trans heq)) fun h => (h hlt).1 heq
    rw [if_neg heq]
    by_cases heq' : signed = true ∧ y = lowest signed w'.bits
    · rw [if_pos heq']
      exact iff_of_false (fun h => hmin heq'.1 (h.trans heq'.2)) fun h => (h hlt).2 heq'.1 heq'.2
    · rw [if_neg heq']
      exact iff_of_true rfl fun _ => ⟨heq, fun hsigned h => heq' ⟨hsigned, h⟩⟩
  · exact iff_of_true (widened_same (by omega)) fun h => absurd h hlt

theorem widened_mem :
    (pair w w' signed signed').widened y = y ∨
      InRange signed w.bits ((pair w w' signed signed').widened y) := by
  unfold Value.widened
  split
  · exact .inr ⟨lowest_le_highest _, Int.le_refl _⟩
  · split
    · exact .inr ⟨Int.le_refl _, lowest_le_highest _⟩
    · exact .inl rfl

/-- A bound is no further from the one it becomes than the guest's type is wide. -/
theorem widened_close (hle : w'.bits ≤ w.bits) :
    y - (pair w w' signed signed').widened y < 2 ^ w.bits ∧
      (pair w w' signed signed').widened y - y < 2 ^ w.bits := by
  show y - (if y = highest signed w'.bits then highest signed w.bits
      else if signed = true ∧ y = lowest signed w'.bits then lowest signed w.bits else y) < _ ∧
    (if y = highest signed w'.bits then highest signed w.bits
      else if signed = true ∧ y = lowest signed w'.bits then lowest signed w.bits else y) - y < _
  split_ifs with hmax hmin
  · subst hmax
    cases signed <;> cases w <;> cases w' <;> first | exact absurd hle (by decide) | decide
  · obtain ⟨rfl, rfl⟩ := hmin
    cases w <;> cases w' <;> first | exact absurd hle (by decide) | decide
  · rw [sub_self]
    exact ⟨by positivity, by positivity⟩

/-- **When a register has the integer that the bridge passes**, for a guest that sees it extended
to 32 bits. -/
theorem register_eq_iff (hle : w'.bits ≤ w.bits) (hy : InRange signed' w'.bits y) :
    wrap false (max w.bits 32) (wrap false 64 y)
        = wrap false (max w.bits 32)
          (wrap signed w.bits (integerToGuest (pair w w' signed signed') y)) ↔
      (w'.bits < w.bits → y ≠ highest signed w'.bits ∧
        (signed = true → y ≠ lowest signed w'.bits)) ∧
      (w.bits < 32 → InRange signed w.bits y) := by
  have hmax : max w.bits 32 ≤ 64 := max_le (width_le w) (by decide)
  obtain ⟨hlow, hhigh, -, hsmall⟩ := bounds_of_inRange hy
  rw [integerToGuest_spec hle hy, wrap_wrap (width_le w), wrap_wrap hmax,
    ← @widened_eq_iff w w' signed signed' y hle]
  by_cases h32 : w.bits < 32
  · have hlt : w'.bits < 32 := Nat.lt_of_le_of_lt hle h32
    obtain ⟨hlow', hhigh'⟩ := hsmall hlt
    have hrange := inRange_wrap signed (width_pos w) ((pair w w' signed signed').widened y)
    obtain ⟨-, -, -, hbounds⟩ := bounds_of_inRange hrange
    obtain ⟨hlow'', hhigh''⟩ := hbounds h32
    rw [Nat.max_eq_right (by omega), wrap_inj ⟨by omega, by omega⟩]
    constructor
    · intro heq
      have hin : InRange signed w.bits y := by
        rw [heq]
        exact hrange
      refine ⟨?_, fun _ => hin⟩
      rcases @widened_mem w w' signed signed' y with h | h
      · exact h
      · rw [wrap_of_inRange (width_pos w) h] at heq
        exact heq.symm
    · rintro ⟨hself, hin⟩
      rw [hself, wrap_of_inRange (width_pos w) (hin h32)]
  · rw [Nat.max_eq_left (by omega), wrap_wrap (Nat.le_refl _), wrap_inj (widened_close hle),
      eq_comm]
    exact (and_iff_left fun h => absurd h h32).symm

/-- Only zero has no bits in the guest's type. -/
theorem widened_emod_eq_zero_iff (hle : w'.bits ≤ w.bits) (hy : InRange signed' w'.bits y) :
    (pair w w' signed signed').widened y % 2 ^ w.bits = 0 ↔ y = 0 := by
  have hbounds : -2 ^ w.bits < y ∧ y < 2 ^ w.bits := by
    have hpow : (2 : Int) ^ w'.bits ≤ 2 ^ w.bits := pow_le_pow_right₀ (by decide) hle
    have hrange : -2 ^ w'.bits < y ∧ y < 2 ^ w'.bits := by
      cases signed' <;> cases w' <;>
        simp only [InRange, lowest, highest, IntWidth.bits, if_true, Bool.false_eq_true, if_false]
          at hy ⊢ <;>
        omega
    omega
  have hends : highest signed w.bits % 2 ^ w.bits ≠ 0 ∧ highest signed w'.bits ≠ 0 ∧
      (signed = true → lowest signed w.bits % 2 ^ w.bits ≠ 0 ∧ lowest signed w'.bits ≠ 0) := by
    cases signed <;> cases w <;> cases w' <;> decide
  show (if y = highest signed w'.bits then highest signed w.bits
      else if signed = true ∧ y = lowest signed w'.bits then lowest signed w.bits else y)
        % 2 ^ w.bits = 0 ↔ _
  split_ifs with hmax hmin
  · exact iff_of_false hends.1 (fun h => hends.2.1 (hmax.symm.trans h))
  · obtain ⟨hsigned, rfl⟩ := hmin
    exact iff_of_false (hends.2.2 hsigned).1 (hends.2.2 hsigned).2
  · constructor
    · intro h
      have hdvd : (2 : Int) ^ w.bits ∣ y := Int.dvd_of_emod_eq_zero h
      exact Int.eq_zero_of_abs_lt_dvd hdvd (abs_lt.mpr hbounds)
    · rintro rfl
      simp

/-- A register has zero for zero only. -/
theorem register_eq_zero_iff (hle : w'.bits ≤ w.bits) (hy : InRange signed' w'.bits y) :
    wrap false (max w.bits 32)
        (wrap signed w.bits (integerToGuest (pair w w' signed signed') y)) = 0 ↔ y = 0 := by
  rw [integerToGuest_spec hle hy, wrap_wrap (width_le w),
    ← @widened_emod_eq_zero_iff w w' signed signed' y hle hy]
  constructor
  · intro h
    have hdvd : (2 : Int) ^ (max w.bits 32)
        ∣ wrap signed w.bits ((pair w w' signed signed').widened y) := Int.dvd_of_emod_eq_zero h
    rw [← wrap_emod signed]
    exact Int.emod_eq_zero_of_dvd ((pow_dvd_pow 2 (le_max_left _ _)).trans hdvd)
  · intro h
    have hzero : wrap signed w.bits ((pair w w' signed signed').widened y)
        = wrap signed w.bits 0 := wrap_congr (by rw [h]; simp)
    rw [hzero]
    cases signed <;> cases w <;> decide

theorem integerToGuest_eq_zero_iff (hle : w'.bits ≤ w.bits) (hy : InRange signed' w'.bits y) :
    integerToGuest (pair w w' signed signed') y = 0 ↔ y = 0 := by
  constructor
  · intro h
    rw [← @register_eq_zero_iff w w' signed signed' y hle hy, h]
    cases signed <;> cases w <;> decide
  · rintro rfl
    rw [integerToGuest_spec hle hy, widened_eq_iff hle |>.mpr]
    · rfl
    · intro hlt
      cases signed <;> cases w' <;> decide

/-- The same of a `_Bool`, which is one of two values. -/
theorem register_eq_bool_iff (hy : InRange signed' w'.bits y) (hle : w'.bits ≤ 8) :
    wrap false (max 8 32) (wrap false 64 y) = wrap false (max 8 32)
        (if integerToGuest (pair .w8 w' false signed') y = 0 then 0 else 1) ↔
      y = 0 ∨ y = 1 := by
  obtain ⟨-, -, -, hsmall⟩ := bounds_of_inRange hy
  obtain ⟨hlow, hhigh⟩ := hsmall (by omega)
  have hzero : integerToGuest (pair .w8 w' false signed') y = 0 ↔ y = 0 :=
    integerToGuest_eq_zero_iff hle hy
  rw [show max 8 32 = 32 from rfl, wrap_wrap (by decide)]
  by_cases h : y = 0
  · rw [if_pos (hzero.mpr h), h]
    exact iff_of_true rfl (.inl rfl)
  · rw [if_neg (mt hzero.mp h), wrap_inj ⟨by omega, by omega⟩]
    exact (or_iff_right h).symm

end IntegerPairs

end Katabasis
