import Katabasis.Lib.LongDivision

set_option autoImplicit false

/-! # The 128-bit division routines

`runtime/int128.c`: restoring long division. Each turn of the loop shifts the next bit of the
dividend into the remainder; the bit that the shift pushes out of the 128 is kept in `carry`, and
with it the remainder is at least as large as any divisor.

`division_correct`: the quotient and the remainder are right for all values, and the signed
routines give the quotient rounded toward zero and the remainder with the dividend's sign, modulo
2^128.
-/

namespace Katabasis

namespace Int128

open LongDivision

/-- The variables of the loop. -/
structure Division where
  q : BitVec 128 := 0
  r : BitVec 128 := 0
  deriving DecidableEq

/-- The body of the loop. -/
def divideBit (n d : BitVec 128) (i : Nat) (s : Division) : Division :=
  let carry := s.r >>> 127
  let r := (s.r <<< 1) ||| ((n >>> i) &&& 1)
  if carry ≠ 0 ∨ d ≤ r then { q := s.q ||| (1#128 <<< i), r := r - d } else { s with r }

/-- The loop, from bit `i - 1` down to bit 0. -/
def divideBits (n d : BitVec 128) : Nat → Division → Division
  | 0, s => s
  | i + 1, s => divideBits n d i (divideBit n d i s)

/-- `udivmod`; a trap on a divisor of 0. -/
def udivmod (n d : BitVec 128) : Option Division :=
  if d = 0 then none else some (divideBits n d 128 {})

/-- `__udivti3` -/
def udivti3 (n d : BitVec 128) : Option (BitVec 128) := (udivmod n d).map Division.q

/-- `__umodti3` -/
def umodti3 (n d : BitVec 128) : Option (BitVec 128) := (udivmod n d).map Division.r

/-- `n < 0 ? -(u128)n : (u128)n` -/
def magnitude (n : BitVec 128) : BitVec 128 := if n.msb then -n else n

/-- `__divti3` -/
def divti3 (n d : BitVec 128) : Option (BitVec 128) :=
  let negative := n.msb != d.msb
  (udivmod (magnitude n) (magnitude d)).map fun s => if negative then -s.q else s.q

/-- `__modti3` -/
def modti3 (n d : BitVec 128) : Option (BitVec 128) :=
  (udivmod (magnitude n) (magnitude d)).map fun s => if n.msb then -s.r else s.r

/-! ## One bit -/

theorem toNat_bit (n : BitVec 128) (i : Nat) :
    ((n >>> i) &&& 1).toNat = n.toNat / 2 ^ i % 2 := by
  rw [BitVec.toNat_and, BitVec.toNat_ushiftRight, Nat.shiftRight_eq_div_pow]
  exact Nat.and_one_is_mod _

/-- The remainder behind the shift, without the bit that is pushed out. -/
theorem toNat_shifted (n r : BitVec 128) (i : Nat) :
    ((r <<< 1) ||| ((n >>> i) &&& 1)).toNat
      = (2 * r.toNat + n.toNat / 2 ^ i % 2) % 2 ^ 128 := by
  have hbit : n.toNat / 2 ^ i % 2 < 2 ^ 1 := Nat.mod_lt _ (by decide)
  have heven : 2 ^ 1 ∣ r.toNat * 2 % 2 ^ 128 := by omega
  obtain ⟨half, hhalf⟩ := heven
  rw [BitVec.toNat_or, toNat_bit, BitVec.toNat_shiftLeft, Nat.shiftLeft_eq, pow_one, hhalf,
    ← Nat.two_pow_add_eq_or_of_lt hbit]
  omega

/-- The bit that is pushed out. -/
theorem carry_ne_zero_iff (r : BitVec 128) : r >>> 127 ≠ 0 ↔ 2 ^ 128 ≤ 2 * r.toNat := by
  have hlt := r.isLt
  have hcarry : r >>> 127 = 0 ↔ r.toNat / 2 ^ 127 = 0 := by
    rw [← BitVec.toNat_inj, BitVec.toNat_ushiftRight, Nat.shiftRight_eq_div_pow]
    rfl
  rw [ne_eq, hcarry, Nat.div_eq_zero_iff]
  omega

/-- A digit that is still open is set by an or. -/
theorem toNat_or_digit {q : BitVec 128} {i : Nat} (hi : i < 128)
    (hopen : q.toNat % 2 ^ (i + 1) = 0) : (q ||| (1#128 <<< i)).toNat = q.toNat + 2 ^ i := by
  have hone : (1#128 <<< i).toNat = 2 ^ i := by
    rw [BitVec.toNat_shiftLeft, Nat.shiftLeft_eq]
    exact (congrArg (· % 2 ^ 128) (Nat.one_mul _)).trans
      (Nat.mod_eq_of_lt (Nat.pow_lt_pow_right (by decide) hi))
  have hlt : 2 ^ i < 2 ^ (i + 1) := Nat.pow_lt_pow_right (by decide) (Nat.lt_succ_self i)
  obtain ⟨k, hk⟩ := Nat.dvd_of_mod_eq_zero hopen
  rw [BitVec.toNat_or, hone, hk, ← Nat.two_pow_add_eq_or_of_lt hlt]

/-- **One turn of the loop** divides one more digit. -/
theorem divideBit_divided {n d : BitVec 128} {i : Nat} (hi : i < 128) {s : Division}
    (h : Divided n.toNat d.toNat (i + 1) s.q.toNat s.r.toNat) :
    Divided n.toNat d.toNat i (divideBit n d i s).q.toNat (divideBit n d i s).r.toNat := by
  obtain ⟨hbelow, habove⟩ := h.append
  have hsmall := h.small
  have hd := d.isLt
  have hbit : n.toNat / 2 ^ i % 2 < 2 := Nat.mod_lt _ (by decide)
  have hshifted := toNat_shifted n s.r i
  have hcarry := carry_ne_zero_iff s.r
  simp only [divideBit]
  split
  case isTrue htake =>
      -- with a carry the remainder has 129 bits, and the difference wraps back into the 128
      have hle : d.toNat ≤ 2 * s.r.toNat + n.toNat / 2 ^ i % 2 := by
        rcases htake with hpushed | hgreater
        · have := hcarry.mp hpushed
          omega
        · rw [BitVec.le_def, hshifted] at hgreater
          exact le_trans hgreater (Nat.mod_le _ _)
      have hr : ((s.r <<< 1 ||| (n >>> i) &&& 1) - d).toNat
          = 2 * s.r.toNat + n.toNat / 2 ^ i % 2 - d.toNat := by
        rw [BitVec.toNat_sub, hshifted]
        omega
      rw [toNat_or_digit hi h.open_low, hr]
      exact habove hle
  case isFalse hkeep =>
      rw [not_or, not_not, BitVec.le_def, hshifted] at hkeep
      have hfits : ¬ 2 ^ 128 ≤ 2 * s.r.toNat := fun hle => hcarry.mpr hle hkeep.1
      rw [hshifted]
      have hmod : (2 * s.r.toNat + n.toNat / 2 ^ i % 2) % 2 ^ 128
          = 2 * s.r.toNat + n.toNat / 2 ^ i % 2 := Nat.mod_eq_of_lt (by omega)
      rw [hmod] at hkeep ⊢
      exact hbelow (Nat.lt_of_not_le hkeep.2)

theorem divideBits_divided {n d : BitVec 128} {i : Nat} (hi : i ≤ 128) {s : Division}
    (h : Divided n.toNat d.toNat i s.q.toNat s.r.toNat) :
    Divided n.toNat d.toNat 0 (divideBits n d i s).q.toNat (divideBits n d i s).r.toNat := by
  induction i generalizing s with
  | zero => exact h
  | succ i ih => exact ih (Nat.le_of_succ_le hi) (divideBit_divided hi h)

/-! ## The routines -/

/-- **The quotient and the remainder**: the machine's own division, for every divisor but 0. -/
theorem udivmod_eq {n d : BitVec 128} (hd : d ≠ 0) :
    udivmod n d = some { q := n / d, r := n % d } := by
  have hpos : 0 < d.toNat := by
    apply Nat.pos_of_ne_zero
    intro hzero
    exact hd (BitVec.eq_of_toNat_eq hzero)
  obtain ⟨hdivided, hsmall⟩ :=
    (divideBits_divided (Nat.le_refl 128) (s := {}) (divided_start n.isLt hpos)).finish
  rw [udivmod, if_neg hd]
  generalize divideBits n d 128 {} = s at hdivided hsmall
  have hq : n.toNat / d.toNat = s.q.toNat := by
    rw [hdivided, Nat.mul_comm, Nat.mul_add_div hpos, Nat.div_eq_of_lt hsmall, Nat.add_zero]
  have hr : n.toNat % d.toNat = s.r.toNat := by
    rw [hdivided, Nat.mul_comm, Nat.mul_add_mod, Nat.mod_eq_of_lt hsmall]
  have hsame : s = { q := n / d, r := n % d } := by
    obtain ⟨q, r⟩ := s
    congr 1
    · apply BitVec.eq_of_toNat_eq
      rw [BitVec.toNat_udiv, hq]
    · apply BitVec.eq_of_toNat_eq
      rw [BitVec.toNat_umod, hr]
  rw [hsame]

theorem magnitude_ne_zero {d : BitVec 128} (hd : d ≠ 0) : magnitude d ≠ 0 := by
  unfold magnitude
  split
  case isTrue => exact fun h => hd (BitVec.neg_eq_zero_iff.mp h)
  case isFalse => exact hd

/-- The sign of the quotient is put back where those of the operands differ. -/
theorem divti3_eq {n d : BitVec 128} (hd : d ≠ 0) : divti3 n d = some (n.sdiv d) := by
  rw [divti3, udivmod_eq (magnitude_ne_zero hd), Option.map_some, BitVec.sdiv_eq]
  cases hn : n.msb <;> cases hd : d.msb <;> simp [magnitude, hn, hd]

/-- The remainder takes the sign of the dividend. -/
theorem modti3_eq {n d : BitVec 128} (hd : d ≠ 0) : modti3 n d = some (n.srem d) := by
  rw [modti3, udivmod_eq (magnitude_ne_zero hd), Option.map_some, BitVec.srem_eq]
  cases hn : n.msb <;> cases hd : d.msb <;> simp [magnitude, hn, hd]

/-- **The division routines are correct**, for every dividend and every divisor but 0. -/
theorem division_correct (n d : BitVec 128) (hd : d ≠ 0) :
    ∃ q r, udivmod n d = some { q, r } ∧
      n.toNat = q.toNat * d.toNat + r.toNat ∧ r.toNat < d.toNat ∧
      udivti3 n d = some q ∧ umodti3 n d = some r ∧
      divti3 n d = some (BitVec.ofInt 128 (n.toInt.tdiv d.toInt)) ∧
      modti3 n d = some (BitVec.ofInt 128 (n.toInt.tmod d.toInt)) := by
  have hpos : 0 < d.toNat := Nat.pos_of_ne_zero fun hzero => hd (BitVec.eq_of_toNat_eq hzero)
  refine ⟨n / d, n % d, udivmod_eq hd, ?_, ?_, ?_, ?_, ?_, ?_⟩
  · rw [BitVec.toNat_udiv, BitVec.toNat_umod, Nat.mul_comm, Nat.div_add_mod]
  · rw [BitVec.toNat_umod]
    exact Nat.mod_lt _ hpos
  · rw [udivti3, udivmod_eq hd, Option.map_some]
  · rw [umodti3, udivmod_eq hd, Option.map_some]
  · have hquotient : n.sdiv d = BitVec.ofInt 128 (n.toInt.tdiv d.toInt) := by
      apply BitVec.eq_of_toInt_eq
      rw [BitVec.toInt_sdiv, BitVec.toInt_ofInt]
    rw [divti3_eq hd, hquotient]
  · have hremainder : n.srem d = BitVec.ofInt 128 (n.toInt.tmod d.toInt) := by
      rw [← BitVec.toInt_srem, BitVec.ofInt_toInt]
    rw [modti3_eq hd, hremainder]

/-- A divisor above 2^127: the remainder is pushed out of the 128 bits on the way. -/
theorem division_correct_carry :
    ∃ q r, udivmod (BitVec.allOnes 128) (BitVec.intMin 128 + 1) = some { q, r } ∧
      (BitVec.allOnes 128).toNat = q.toNat * (BitVec.intMin 128 + 1).toNat + r.toNat ∧
      r.toNat < (BitVec.intMin 128 + 1).toNat := by
  obtain ⟨q, r, hrun, hdivided, hsmall, -⟩ :=
    division_correct (BitVec.allOnes 128) (BitVec.intMin 128 + 1) (by decide)
  exact ⟨q, r, hrun, hdivided, hsmall⟩

/-- The quotient of the most negative value by -1 wraps to the most negative value. -/
example : divti3 (BitVec.intMin 128) (-1) = some (BitVec.intMin 128) := by
  rw [divti3_eq (by decide)]
  decide

end Int128

end Katabasis
