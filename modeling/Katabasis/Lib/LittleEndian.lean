import Mathlib.Tactic

set_option autoImplicit false

/-! # Little-endian bytes

The bytes of a number, the least significant first, in so many bytes, and the number that bytes
are read as: what does not fit is cut off.
-/

namespace Katabasis.LittleEndian

def toBytes : Nat → Nat → List UInt8
  | 0, _ => []
  | n + 1, value => UInt8.ofNat value :: toBytes n (value / 256)

def ofBytes (bytes : List UInt8) : Nat := Nat.ofDigits 256 (bytes.map UInt8.toNat)

@[simp] theorem length_toBytes (n value : Nat) : (toBytes n value).length = n := by
  induction n generalizing value with
  | zero => rfl
  | succ n ih => rw [toBytes, List.length_cons, ih]

/-- **Read back**, a number is what fits of it. -/
theorem ofBytes_toBytes (n value : Nat) : ofBytes (toBytes n value) = value % 256 ^ n := by
  induction n generalizing value with
  | zero => rw [pow_zero, Nat.mod_one]; rfl
  | succ n ih =>
      have hbyte : (UInt8.ofNat value).toNat = value % 256 := rfl
      calc ofBytes (toBytes (n + 1) value)
          = (UInt8.ofNat value).toNat + 256 * ofBytes (toBytes n (value / 256)) := by
            rw [toBytes, ofBytes, List.map_cons, Nat.ofDigits_cons]
            rfl
        _ = value % 256 + 256 * (value / 256 % 256 ^ n) := by rw [hbyte, ih]
        _ = value % 256 ^ (n + 1) := by rw [pow_succ, mul_comm (256 ^ n), Nat.mod_mul]

/-- The low bytes, then the high ones. -/
theorem toBytes_add (m n value : Nat) :
    toBytes (m + n) value = toBytes m value ++ toBytes n (value / 256 ^ m) := by
  induction m generalizing value with
  | zero => simp [toBytes]
  | succ m ih =>
      rw [Nat.succ_add, toBytes, ih, toBytes, Nat.div_div_eq_div_mul, pow_succ']
      rfl

end Katabasis.LittleEndian
