import Mathlib.Tactic

set_option autoImplicit false

/-! # C types on the two sides

The types of the SDK headers as `xlgen` sees them (`xlate/src/xlgen.cpp`), each function being
declared once for the arm64 guest and once for the armv7 host. A record carries the layout
clang gives it: the byte offsets of its fields and its size. `WellFormed` says what C promises
of such a layout, with any packing and alignment.
-/

namespace Katabasis

inductive IntWidth
  | w8 | w16 | w32 | w64
  deriving DecidableEq, Repr

def IntWidth.bits : IntWidth → Nat
  | w8 => 8
  | w16 => 16
  | w32 => 32
  | w64 => 64

inductive FloatWidth
  | half | single | double
  deriving DecidableEq, Repr

def FloatWidth.bits : FloatWidth → Nat
  | half => 16
  | single => 32
  | double => 64

/-- The pointer types `Classify` tells apart. -/
inductive PointerKind
  /-- A C pointer; `passes` is what `Classify` finds of the two pointees: one layout, or an
  opaque handle. -/
  | data (passes : Bool)
  | object
  /-- `SEL`; `Class` is an object pointer. -/
  | selector
  | protocol
  | block
  | function
  deriving DecidableEq, Repr

mutual

inductive CType
  | integer (width : IntWidth) (signed : Bool)
  | floating (width : FloatWidth)
  | pointer (kind : PointerKind)
  | array (element : CType) (count : Nat)
  | record (isUnion : Bool) (fields : Fields) (size : Nat)
  /-- A type `Classify` has no answer for: a vector, a complex number. -/
  | other (size : Nat)

/-- The fields of a record in order, each with its byte offset; that of a bit-field is the
offset of the byte it starts in. -/
inductive Fields
  | nil
  | cons (name : String) (offset : Nat) (isBitField : Bool) (type : CType) (rest : Fields)

end

namespace CType

/-- The size in bytes on the guest, where a pointer has eight. -/
def guestSize : CType → Nat
  | integer width _ => width.bits / 8
  | floating width => width.bits / 8
  | pointer _ => 8
  | array element count => count * element.guestSize
  | record _ _ size => size
  | other size => size

/-- `getTypeSize` on the host, in bits, where a pointer has 32. -/
def hostBits : CType → Nat
  | integer width _ => width.bits
  | floating width => width.bits
  | pointer _ => 32
  | array element count => count * element.hostBits
  | record _ _ size => 8 * size
  | other size => 8 * size

end CType

/-- The bytes a field keeps from the next one; bit-fields share theirs. -/
def extent (isBitField : Bool) (type : CType) : Nat :=
  if isBitField then 0 else type.guestSize

/-! ## Layouts -/

mutual

/-- The guest layout of every record in the type is one that C allows. -/
def CType.WellFormed : CType → Prop
  | .array element _ => element.WellFormed
  | .record false fields size => fields.InOrder true 0 size
  | .record true fields size => fields.AtStart true size
  | _ => True

/-- The fields of a struct from `cursor` on: none starts before the previous one ends, and the
struct ends behind them. While all before is empty (`fresh`), nothing has moved. -/
def Fields.InOrder : Fields → Bool → Nat → Nat → Prop
  | .nil, fresh, cursor, size => cursor ≤ size ∧ (fresh → size = 0)
  | .cons _ offset isBitField type rest, fresh, cursor, size =>
      type.WellFormed ∧ cursor ≤ offset ∧ (fresh → offset = 0) ∧
        rest.InOrder (fresh && !isBitField && type.guestSize == 0)
          (offset + extent isBitField type) size

/-- The members of a union: all start where it starts, and end before it does. -/
def Fields.AtStart : Fields → Bool → Nat → Prop
  | .nil, fresh, size => fresh → size = 0
  | .cons _ offset isBitField type rest, fresh, size =>
      type.WellFormed ∧ offset = 0 ∧ extent isBitField type ≤ size ∧
        rest.AtStart (fresh && !isBitField && type.guestSize == 0) size

end

mutual

/-- There is a scalar somewhere in the type. -/
def CType.hasScalar : CType → Bool
  | .array element count => decide (0 < count) && element.hasScalar
  | .record _ fields _ => fields.hasScalar
  | _ => true

def Fields.hasScalar : Fields → Bool
  | .nil => false
  | .cons _ _ isBitField type rest => isBitField || type.hasScalar || rest.hasScalar

end

/-- The members that hold a scalar. -/
def Fields.occupied : Fields → Nat
  | .nil => 0
  | .cons _ _ _ type rest => (if type.hasScalar then 1 else 0) + rest.occupied

mutual

/-- No two scalars share memory (in each union at most one member holds any), and no
floating-point scalar is narrower than `float`. -/
def CType.unshared : CType → Bool
  | .floating width => decide (width ≠ .half)
  | .array element count => decide (count = 0) || element.unshared
  | .record isUnion fields _ => fields.unshared && (!isUnion || decide (fields.occupied ≤ 1))
  | _ => true

def Fields.unshared : Fields → Bool
  | .nil => true
  | .cons _ _ _ type rest => type.unshared && rest.unshared

end

theorem Fields.inOrder_le {fields : Fields} {fresh : Bool} {cursor size : Nat}
    (h : fields.InOrder fresh cursor size) : cursor ≤ size := by
  cases fields with
  | nil => exact h.1
  | cons name offset isBitField type rest =>
      obtain ⟨-, hcursor, -, hrest⟩ := h
      have := Fields.inOrder_le hrest
      omega

/-! ## A type without scalars is empty -/

theorem bits_pos (width : IntWidth) : 0 < width.bits / 8 := by cases width <;> decide

theorem floatBits_pos (width : FloatWidth) : 0 < width.bits / 8 := by cases width <;> decide

mutual

theorem CType.guestSize_of_not_hasScalar {g : CType} (hw : g.WellFormed)
    (h : g.hasScalar = false) : g.guestSize = 0 := by
  cases g with
  | array element count =>
      rw [CType.hasScalar, Bool.and_eq_false_iff, decide_eq_false_iff_not] at h
      rcases h with h | h
      · have : count = 0 := by omega
        simp [CType.guestSize, this]
      · have hzero := CType.guestSize_of_not_hasScalar (g := element) hw h
        rw [CType.guestSize, hzero, Nat.mul_zero]
  | record isUnion fields size =>
      rw [CType.hasScalar] at h
      cases isUnion with
      | false => exact Fields.size_of_inOrder hw h
      | true => exact Fields.size_of_atStart hw h
  | _ => cases h

theorem Fields.size_of_inOrder {fields : Fields} {cursor size : Nat}
    (hw : fields.InOrder true cursor size) (h : fields.hasScalar = false) : size = 0 := by
  cases fields with
  | nil => exact hw.2 rfl
  | cons name offset isBitField type rest =>
      simp only [Fields.hasScalar, Bool.or_eq_false_iff] at h
      obtain ⟨htype, -, -, hrest⟩ := hw
      have hzero := CType.guestSize_of_not_hasScalar htype h.1.2
      rw [h.1.1, hzero] at hrest
      exact Fields.size_of_inOrder hrest h.2

theorem Fields.size_of_atStart {fields : Fields} {size : Nat}
    (hw : fields.AtStart true size) (h : fields.hasScalar = false) : size = 0 := by
  cases fields with
  | nil => exact hw rfl
  | cons name offset isBitField type rest =>
      simp only [Fields.hasScalar, Bool.or_eq_false_iff] at h
      obtain ⟨htype, -, -, hrest⟩ := hw
      have hzero := CType.guestSize_of_not_hasScalar htype h.1.2
      rw [h.1.1, hzero] at hrest
      exact Fields.size_of_atStart hrest h.2

end

end Katabasis
