import Mathlib.Tactic

set_option autoImplicit false

/-! # Words held in wider ones

A word of `w` bits, held zero-extended in one of `n`. An evaluator that has only wide words works
on the narrow ones so: it masks what may overflow, and moves the sign bit up and back down where an
operation is signed. Each lemma says that an operation on the wide words, masked or extended by
hand, holds what the operation on the narrow words gives.
-/

namespace Katabasis.HeldWords

variable {n w : Nat}

/-- The low bits. -/
def mask (n w : Nat) : BitVec n :=
  if n ≤ w then BitVec.allOnes n else 1#n <<< w - 1#n

/-- The sign bit of the low bits, moved up and back down. -/
def signExtend (v : BitVec n) (w : Nat) : BitVec n := (v <<< (n - w)).sshiftRight (n - w)

theorem mask_eq (n w : Nat) : mask n w = (BitVec.allOnes w).setWidth n := by
  rw [mask]
  split
  case isTrue h =>
      apply BitVec.eq_of_getLsbD_eq
      intro i hi
      simp only [BitVec.getLsbD_allOnes, BitVec.getLsbD_setWidth, hi, decide_true, Bool.true_and]
      exact (decide_eq_true (by omega)).symm
  case isFalse h =>
      have hlt : w < n := Nat.lt_of_not_le h
      have hpow : 2 ^ w < 2 ^ n := Nat.pow_lt_pow_right (by omega) hlt
      have hone : 0 < 2 ^ w := Nat.two_pow_pos w
      apply BitVec.eq_of_toNat_eq
      rw [BitVec.toNat_sub, BitVec.toNat_shiftLeft, BitVec.toNat_ofNat, BitVec.toNat_setWidth,
        BitVec.toNat_allOnes, Nat.mod_eq_of_lt (a := 1) (by omega), Nat.one_shiftLeft,
        Nat.mod_eq_of_lt hpow, Nat.mod_eq_of_lt (a := 2 ^ w - 1) (by omega)]
      rw [show 2 ^ n - 1 + 2 ^ w = 2 ^ w - 1 + 2 ^ n by omega, Nat.add_mod_right,
        Nat.mod_eq_of_lt (by omega)]

/-- **A mask keeps the narrow word.** -/
theorem and_mask (v : BitVec n) (w : Nat) : v &&& mask n w = (v.setWidth w).setWidth n := by
  rw [mask_eq]
  apply BitVec.eq_of_getLsbD_eq
  intro i hi
  simp only [BitVec.getLsbD_and, BitVec.getLsbD_setWidth, BitVec.getLsbD_allOnes, hi, decide_true,
    Bool.true_and]
  exact Bool.and_comm _ _

/-- **The sign bit moved up and back down extends the narrow word.** -/
theorem signExtend_eq (hw : 0 < w) (h : w ≤ n) (v : BitVec n) :
    signExtend v w = (v.setWidth w).signExtend n := by
  rw [signExtend]
  apply BitVec.eq_of_getLsbD_eq
  intro i hi
  -- the sign bit of the wide word, moved up, is that of the narrow one
  have hmsb : (v <<< (n - w)).msb = (v.setWidth w).msb := by
    rw [BitVec.msb_eq_getLsbD_last, BitVec.msb_eq_getLsbD_last, BitVec.getLsbD_shiftLeft,
      BitVec.getLsbD_setWidth, show n - 1 - (n - w) = w - 1 by omega]
    simp only [show n - 1 < n by omega, show ¬ n - 1 < n - w by omega, show w - 1 < w by omega,
      decide_true, decide_false, Bool.not_false, Bool.true_and]
  rw [BitVec.getLsbD_sshiftRight, BitVec.getLsbD_signExtend, hmsb]
  simp only [show ¬ n ≤ i by omega, hi, decide_false, decide_true, Bool.not_false, Bool.true_and]
  by_cases hiw : i < w
  · rw [if_pos (by omega), if_pos hiw, BitVec.getLsbD_shiftLeft, BitVec.getLsbD_setWidth,
      show n - w + i - (n - w) = i by omega]
    simp only [show n - w + i < n by omega, show ¬ n - w + i < n - w by omega, hiw, decide_true,
      decide_false, Bool.not_false, Bool.true_and]
  · rw [if_neg (by omega), if_neg hiw]

/-- The low bits of an extended word are those of the word extended to fewer. -/
theorem setWidth_signExtend {m : Nat} (h : m ≤ n) (x : BitVec w) :
    (x.signExtend n).setWidth m = x.signExtend m := by
  apply BitVec.eq_of_getLsbD_eq
  intro i hi
  rw [BitVec.getLsbD_setWidth, BitVec.getLsbD_signExtend, BitVec.getLsbD_signExtend]
  simp only [hi, show i < n by omega, decide_true, Bool.true_and]

/-! ## Operations on held words -/

section
variable (h : w ≤ n) (x y : BitVec w)

include h

@[simp] theorem setWidth_held : (x.setWidth n).setWidth w = x := by
  rw [BitVec.setWidth_setWidth_of_le x h, BitVec.setWidth_eq]

theorem toNat_held : (x.setWidth n).toNat = x.toNat := BitVec.toNat_setWidth_of_le h

theorem mask_held : x.setWidth n &&& mask n w = x.setWidth n := by
  rw [and_mask, setWidth_held h]

theorem add_held : (x.setWidth n + y.setWidth n) &&& mask n w = (x + y).setWidth n := by
  rw [and_mask, BitVec.setWidth_add _ _ h, setWidth_held h, setWidth_held h]

theorem sub_held : (x.setWidth n - y.setWidth n) &&& mask n w = (x - y).setWidth n := by
  rw [and_mask, BitVec.sub_eq_add_neg, BitVec.setWidth_add _ _ h, BitVec.setWidth_neg_of_le h,
    setWidth_held h, setWidth_held h, ← BitVec.sub_eq_add_neg]

theorem mul_held : (x.setWidth n * y.setWidth n) &&& mask n w = (x * y).setWidth n := by
  rw [and_mask, BitVec.setWidth_mul _ _ h, setWidth_held h, setWidth_held h]

theorem shiftLeft_held :
    (x.setWidth n <<< y.setWidth n) &&& mask n w = (x <<< y).setWidth n := by
  rw [and_mask, BitVec.shiftLeft_eq', BitVec.setWidth_shiftLeft_of_le h, setWidth_held h,
    toNat_held h, BitVec.shiftLeft_eq']

theorem ushiftRight_held :
    (x.setWidth n >>> y.setWidth n) &&& mask n w = (x >>> y).setWidth n := by
  rw [and_mask, BitVec.ushiftRight_eq', toNat_held h, ← BitVec.setWidth_ushiftRight h,
    setWidth_held h, BitVec.ushiftRight_eq']

theorem signExtend_held (hw : 0 < w) : signExtend (x.setWidth n) w = x.signExtend n := by
  rw [signExtend_eq hw h, setWidth_held h]

theorem sshiftRight_held (hw : 0 < w) :
    (signExtend (x.setWidth n) w).sshiftRight (y.setWidth n).toNat &&& mask n w
      = (x.sshiftRight y.toNat).setWidth n := by
  rw [and_mask, signExtend_held h x hw, toNat_held h]
  congr 1
  apply BitVec.eq_of_getLsbD_eq
  intro i hi
  have hmsb : (x.signExtend n).msb = x.msb := by
    rw [BitVec.msb_eq_getLsbD_last, BitVec.getLsbD_signExtend,
      BitVec.msb_eq_getLsbD_last]
    by_cases hn : n - 1 < w
    · rw [if_pos hn, show n - 1 = w - 1 by omega]
      simp only [show w - 1 < n by omega, decide_true, Bool.true_and]
    · rw [if_neg hn]
      simp only [show n - 1 < n by omega, decide_true, Bool.true_and]
  rw [BitVec.getLsbD_setWidth, BitVec.getLsbD_sshiftRight, BitVec.getLsbD_sshiftRight, hmsb]
  simp only [hi, show ¬ n ≤ i by omega, show ¬ w ≤ i by omega, decide_true, decide_false,
    Bool.not_false, Bool.true_and]
  by_cases hin : y.toNat + i < n
  · rw [if_pos hin, BitVec.getLsbD_signExtend]
    simp only [hin, decide_true, Bool.true_and]
  · rw [if_neg hin, if_neg (by omega)]

theorem held_inj : x.setWidth n = y.setWidth n ↔ x = y :=
  ⟨fun heq => by rw [← setWidth_held h x, heq, setWidth_held h], fun heq => by rw [heq]⟩

theorem ult_held : (x.setWidth n).ult (y.setWidth n) = x.ult y := by
  rw [BitVec.ult, BitVec.ult, toNat_held h, toNat_held h]

theorem slt_held : (x.signExtend n).slt (y.signExtend n) = x.slt y := by
  rw [BitVec.slt, BitVec.slt, BitVec.toInt_signExtend_of_le h, BitVec.toInt_signExtend_of_le h]

end

end Katabasis.HeldWords
