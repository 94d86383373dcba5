import Katabasis.Lib.CIntegers
import Katabasis.Xlgen.Leaves

set_option autoImplicit false

/-! # Scalars across the boundary

What the expressions of `ScalarToHost` and `ScalarToGuest` (`xlate/src/xlgen.cpp`) compute, with
the inline functions they call (`runtime/xl_bridge.h`). A C integer is its mathematical value;
a cast is the conversion to the width and signedness of its type (`CIntegers.wrap`; a `_Bool` is
an unsigned integer of 8 bits that is 0 or 1). A guest scalar is passed in a 64-bit slot.

Where an integer is narrower on the host, the bounds of its type on the two sides are taken for
each other: `NSNotFound` and `LONG_MIN` are not values like others. A pointer has 32 bits on the
host, of which the top 256 addresses are sign-extended.
-/

namespace Katabasis

open CIntegers

/-- `xl_narrowing_fault`, which does not return: where it happened, and the value. -/
structure NarrowingFault where
  symbol : String
  index : Nat
  value : Nat
  deriving DecidableEq, Repr

/-- What is computed from a guest's value, unless it does not fit. -/
abbrev Narrowed := Except NarrowingFault

def xlNarrowingFault {α : Type} (symbol : String) (index : Nat) (value : Int) : Narrowed α :=
  .error ⟨symbol, index, (wrap false 64 value).toNat⟩

theorem not_faults {α : Type} {x : α} : ¬ ∃ fault, (Except.ok x : Narrowed α) = .error fault := by
  rintro ⟨fault, h⟩
  cases h

def xlNarrowSigned (value hostMin hostMax guestMin guestMax : Int) (symbol : String)
    (index : Nat) : Narrowed Int :=
  if value = guestMax then .ok hostMax
  else if value = guestMin then .ok hostMin
  else if value < hostMin ∨ hostMax < value then xlNarrowingFault symbol index value
  else .ok value

def xlNarrowUnsigned (value hostMax guestMax : Int) (symbol : String) (index : Nat) :
    Narrowed Int :=
  if value = guestMax then .ok hostMax
  else if hostMax < value then xlNarrowingFault symbol index value
  else .ok value

/-- `xl_narrow_pointer`, of a `uint64_t`. -/
def xlNarrowPointer (value : Int) (symbol : String) (index : Nat) : Narrowed Int :=
  if value / 2 ^ 32 ≠ 0 then
    if 0xFFFFFFFFFFFFFF00 ≤ value then .ok (wrap false 32 value)
    else xlNarrowingFault symbol index value
  else .ok (wrap false 32 value)

/-- `xl_widen_pointer`, of a `uintptr_t`, which has 32 bits on the host. -/
def xlWidenPointer (value : Int) : Int :=
  if 0xFFFFFF00 ≤ value then wrap false 64 (wrap true 32 value) else value

def xlWidenSigned (value hostMin hostMax guestMin guestMax : Int) : Int :=
  if value = hostMax then guestMax else if value = hostMin then guestMin else value

def xlWidenUnsigned (value hostMax guestMax : Int) : Int :=
  if value = hostMax then guestMax else value

/-- `Bound`, the number that its text denotes. -/
def bound (bits : Nat) (isSigned max : Bool) : Int :=
  if isSigned then
    if max then 2 ^ (bits - 1) - 1 else -(2 ^ (bits - 1) - 1) - 1
  else if bits = 64 then 2 ^ 64 - 1 else 2 ^ bits - 1

/-- What an expression of scalar type evaluates to: an integer or an address, or a
floating-point number of its format. -/
inductive Scalar (F : FloatWidth → Type)
  | integer (x : Int)
  | floating (width : FloatWidth) (x : F width)

/-- What the expressions take from elsewhere: the machine's conversions between `double` and the
narrower formats, and how the runtime passes an object pointer. -/
structure Machinery (F : FloatWidth → Type) where
  extend : (width : FloatWidth) → F width → F .double
  round : (width : FloatWidth) → F .double → F width
  xlObjectIn : Int → String → Nat → Narrowed Int
  xlObjectOut : Int → Int

variable {F : FloatWidth → Type}

namespace Machinery

/-- The cast to `double`. -/
def toDouble (m : Machinery F) : (width : FloatWidth) → F width → F .double
  | .half, x => m.extend .half x
  | .single, x => m.extend .single x
  | .double, x => x

/-- The cast of a `double`. -/
def ofDouble (m : Machinery F) : (width : FloatWidth) → F .double → F width
  | .half, x => m.round .half x
  | .single, x => m.round .single x
  | .double, x => x

/-- A number of a narrower format comes through `double` unchanged. -/
def Exact (m : Machinery F) : Prop := ∀ width x, m.round width (m.extend width x) = x

theorem ofDouble_toDouble {m : Machinery F} (hexact : m.Exact) (width : FloatWidth)
    (x : F width) : m.ofDouble width (m.toDouble width x) = x := by
  cases width with
  | double => rfl
  | half => exact hexact .half x
  | single => exact hexact .single x

end Machinery

/-- The signedness of a type that is an integer's. -/
def CType.isSigned : CType → Bool
  | integer _ signed => signed
  | _ => false

/-- The format of a floating-point type. -/
def CType.format : CType → FloatWidth
  | floating width => width
  | _ => .double

/-! ## The expressions -/

/-- The expression of `ScalarToHost` for an integer. -/
def integerToHost (value : Value) (x : Int) (symbol : String) (index : Nat) : Narrowed Int :=
  let cast := wrap value.host.isSigned value.hostBits
  if value.hostBits < value.guestBits then
    if value.isSigned then
      cast <$> xlNarrowSigned (wrap true 64 x) (bound value.hostBits true false)
        (bound value.hostBits true true) (bound value.guestBits true false)
        (bound value.guestBits true true) symbol index
    else
      cast <$> xlNarrowUnsigned (wrap false 64 x) (bound value.hostBits false true)
        (bound value.guestBits false true) symbol index
  else .ok (cast x)

/-- The expression of `ScalarToGuest` for an integer. -/
def integerToGuest (value : Value) (x : Int) : Int :=
  if value.hostBits < value.guestBits then
    if value.isSigned then
      wrap false 64 (xlWidenSigned (wrap true 64 x) (bound value.hostBits true false)
        (bound value.hostBits true true) (bound value.guestBits true false)
        (bound value.guestBits true true))
    else
      xlWidenUnsigned (wrap false 64 x) (bound value.hostBits false true)
        (bound value.guestBits false true)
  else if value.isSigned then wrap false 64 (wrap true 64 x)
  else wrap false 64 x

/-- The expression of `ScalarToHost` for a pointer. -/
def pointerToHost (m : Machinery F) (value : Value) (x : Int) (symbol : String) (index : Nat) :
    Narrowed Int :=
  wrap false 32 <$> if value.isObject then m.xlObjectIn (wrap false 64 x) symbol index
    else xlNarrowPointer (wrap false 64 x) symbol index

/-- The expression of `ScalarToGuest` for a pointer. -/
def pointerToGuest (m : Machinery F) (value : Value) (x : Int) : Int :=
  if value.isObject then m.xlObjectOut (wrap false 32 x) else xlWidenPointer (wrap false 32 x)

/-- `ScalarToHost`, of the value of the expression; there is none where one of the two is
floating-point and the other is not, which no leaf is. -/
def scalarToHost (m : Machinery F) (value : Value) (symbol : String) (index : Nat) :
    Scalar F → Option (Narrowed (Scalar F))
  | .integer x =>
      match value.kind with
      | .integer => some (Scalar.integer <$> integerToHost value x symbol index)
      | .floating => none
      | _ => some (Scalar.integer <$> pointerToHost m value x symbol index)
  | .floating width x =>
      match value.kind with
      | .floating =>
          some (.ok (.floating value.host.format (m.ofDouble _ (m.toDouble width x))))
      | _ => none

/-- `ScalarToGuest`. -/
def scalarToGuest (m : Machinery F) (value : Value) : Scalar F → Option (Scalar F)
  | .integer x =>
      match value.kind with
      | .integer => some (.integer (integerToGuest value x))
      | .floating => none
      | _ => some (.integer (pointerToGuest m value x))
  | .floating width x =>
      match value.kind with
      | .floating => some (.floating .double (m.toDouble width x))
      | _ => none

/-! ## Integers -/

theorem bound_max (bits : Nat) (signed : Bool) : bound bits signed true = highest signed bits := by
  cases signed with
  | true => rfl
  | false =>
      unfold bound
      by_cases h : bits = 64
      · rw [h]
        rfl
      · simp [h, highest]

theorem bound_min (bits : Nat) : bound bits true false = lowest true bits := by
  simp [bound, lowest]

/-- An integer type that is narrower on the host, and signed there where it is on the guest. -/
structure Value.NarrowerOnHost (value : Value) : Prop where
  kind : value.kind = .integer
  pos : 0 < value.hostBits
  lt : value.hostBits < value.guestBits
  le : value.guestBits ≤ 64
  sign : value.host.isSigned = value.isSigned

namespace Value.NarrowerOnHost

variable {value : Value}

/-- The values of the host's type are among the guest's, and the greatest is not the guest's
greatest; for a signed type, the least is not the guest's least. -/
theorem bounds (h : value.NarrowerOnHost) (signed : Bool) :
    lowest signed value.guestBits ≤ lowest signed value.hostBits ∧
      highest signed value.hostBits < highest signed value.guestBits ∧
      (signed → lowest signed value.guestBits < lowest signed value.hostBits) ∧
      lowest signed value.hostBits ≤ highest signed value.hostBits := by
  have hpred : (2 : Int) ^ (value.hostBits - 1) < 2 ^ (value.guestBits - 1) :=
    pow_lt_pow_right₀ (by decide) (by have := h.pos; have := h.lt; omega)
  have hpow : (2 : Int) ^ value.hostBits < 2 ^ value.guestBits :=
    pow_lt_pow_right₀ (by decide) h.lt
  have hle : lowest signed value.hostBits ≤ highest signed value.hostBits :=
    lowest_le_highest _
  cases signed with
  | true =>
      simp only [lowest, highest, if_true] at hle ⊢
      exact ⟨by omega, by omega, fun _ => by omega, hle⟩
  | false =>
      simp only [lowest, highest, Bool.false_eq_true, if_false] at hle ⊢
      exact ⟨by omega, by omega, fun h => by simp at h, hle⟩

end Value.NarrowerOnHost

/-- The guest's value for a value of the host's type: its bounds for the host's bounds. -/
def Value.widened (value : Value) (x : Int) : Int :=
  if x = highest value.isSigned value.hostBits then highest value.isSigned value.guestBits
  else if value.isSigned = true ∧ x = lowest value.isSigned value.hostBits then
    lowest value.isSigned value.guestBits
  else x

section

variable {value : Value}

theorem inRange_widened (h : value.NarrowerOnHost) {x : Int}
    (hx : InRange value.isSigned value.hostBits x) :
    InRange value.isSigned value.guestBits (value.widened x) := by
  obtain ⟨hlow, hhigh, -, hle⟩ := h.bounds value.isSigned
  obtain ⟨h1, h2⟩ := hx
  unfold Value.widened InRange
  split
  · exact ⟨by omega, Int.le_refl _⟩
  · split
    · exact ⟨Int.le_refl _, by omega⟩
    · exact ⟨by omega, by omega⟩

/-- A value of the guest's type has room in the 64 bits of the casts. -/
theorem wrap_slot (h : value.NarrowerOnHost) {x slot : Int}
    (hx : InRange value.isSigned value.guestBits x) (hslot : slot % 2 ^ 64 = x % 2 ^ 64) :
    wrap value.isSigned 64 slot = x := by
  rw [wrap_congr hslot]
  refine wrap_of_inRange (by decide) ⟨?_, ?_⟩
  · exact Int.le_trans (lowest_le_lowest h.le) hx.1
  · exact Int.le_trans hx.2 (highest_le_highest h.le)

/-- **What widening computes**, in the slot. -/
theorem integerToGuest_eq (h : value.NarrowerOnHost) {x : Int}
    (hx : InRange value.isSigned value.hostBits x) :
    integerToGuest value x = wrap false 64 (value.widened x) := by
  have hguest : InRange value.isSigned value.guestBits x :=
    ⟨Int.le_trans (h.bounds _).1 hx.1, Int.le_trans hx.2 (Int.le_of_lt (h.bounds _).2.1)⟩
  have hcast : wrap value.isSigned 64 x = x := wrap_slot h hguest rfl
  have hfits : wrap value.isSigned 64 (value.widened x) = value.widened x :=
    wrap_slot h (inRange_widened h hx) rfl
  unfold integerToGuest
  rw [if_pos h.lt]
  cases hsigned : value.isSigned with
  | true =>
      rw [hsigned] at hcast
      simp only [if_true, hcast, bound_max, bound_min, xlWidenSigned, Value.widened, hsigned,
        true_and]
  | false =>
      rw [hsigned] at hcast hfits
      rw [hfits]
      simp only [Bool.false_eq_true, if_false, hcast, bound_max, xlWidenUnsigned, Value.widened,
        hsigned, false_and]

/-- **What narrowing computes**, of a slot that holds a guest's value. -/
theorem integerToHost_eq (h : value.NarrowerOnHost) {x slot : Int}
    (hx : InRange value.isSigned value.guestBits x) (hslot : slot % 2 ^ 64 = x % 2 ^ 64)
    (symbol : String) (index : Nat) :
    integerToHost value slot symbol index =
      if x = highest value.isSigned value.guestBits then
        .ok (highest value.isSigned value.hostBits)
      else if x = lowest value.isSigned value.guestBits then
        .ok (lowest value.isSigned value.hostBits)
      else if InRange value.isSigned value.hostBits x then .ok x
      else xlNarrowingFault symbol index x := by
  have hcast : wrap value.isSigned 64 slot = x := wrap_slot h hx hslot
  have hself : ∀ {y : Int}, InRange value.isSigned value.hostBits y →
      wrap value.isSigned value.hostBits y = y := wrap_of_inRange h.pos
  have hends : InRange value.isSigned value.hostBits (highest value.isSigned value.hostBits) ∧
      InRange value.isSigned value.hostBits (lowest value.isSigned value.hostBits) :=
    ⟨⟨lowest_le_highest _, Int.le_refl _⟩, ⟨Int.le_refl _, lowest_le_highest _⟩⟩
  unfold integerToHost
  dsimp only
  rw [if_pos h.lt, h.sign]
  cases hsigned : value.isSigned with
  | true =>
      rw [hsigned] at hcast hends hself
      simp only [if_true, hcast, bound_max, bound_min, xlNarrowSigned]
      by_cases hmax : x = highest true value.guestBits
      · rw [if_pos hmax, if_pos hmax]
        exact congrArg Except.ok (hself hends.1)
      rw [if_neg hmax, if_neg hmax]
      by_cases hmin : x = lowest true value.guestBits
      · rw [if_pos hmin, if_pos hmin]
        exact congrArg Except.ok (hself hends.2)
      rw [if_neg hmin, if_neg hmin]
      by_cases hin : InRange true value.hostBits x
      · rw [if_pos hin, if_neg (by obtain ⟨h1, h2⟩ := hin; omega)]
        exact congrArg Except.ok (hself hin)
      · rw [if_neg hin, if_pos (by unfold InRange at hin; omega)]
        rfl
  | false =>
      rw [hsigned] at hcast hends hself hx
      have hzero : lowest false value.guestBits = 0 ∧ lowest false value.hostBits = 0 := ⟨rfl, rfl⟩
      obtain ⟨hnonneg, -⟩ := hx
      simp only [Bool.false_eq_true, if_false, hcast, bound_max, xlNarrowUnsigned]
      by_cases hmax : x = highest false value.guestBits
      · rw [if_pos hmax, if_pos hmax]
        exact congrArg Except.ok (hself hends.1)
      rw [if_neg hmax, if_neg hmax]
      by_cases hin : InRange false value.hostBits x
      · rw [if_neg (by obtain ⟨h1, h2⟩ := hin; omega)]
        -- the least value, zero, is its own counterpart
        by_cases hmin : x = lowest false value.guestBits
        · rw [if_pos hmin, hzero.2, hmin, hzero.1]
          exact congrArg Except.ok (hself (by rw [← hzero.2]; exact hends.2))
        · rw [if_neg hmin, if_pos hin]
          exact congrArg Except.ok (hself hin)
      · have hmin : x ≠ lowest false value.guestBits := by
          intro heq
          apply hin
          rw [heq, hzero.1, ← hzero.2]
          exact hends.2
        rw [if_neg hmin, if_neg hin, if_pos (by unfold InRange at hin; omega)]
        rfl

/-- **There and back**: what a value of the host's type is widened to is narrowed to it, from
any slot or member that kept it. -/
theorem integerToHost_widened (h : value.NarrowerOnHost) {x slot : Int}
    (hx : InRange value.isSigned value.hostBits x)
    (hslot : slot % 2 ^ 64 = value.widened x % 2 ^ 64) (symbol : String) (index : Nat) :
    integerToHost value slot symbol index = .ok x := by
  rw [integerToHost_eq h (inRange_widened h hx) hslot]
  obtain ⟨hlow, hhigh, hlowlt, hle⟩ := h.bounds value.isSigned
  obtain ⟨h1, h2⟩ := id hx
  unfold Value.widened
  by_cases hmax : x = highest value.isSigned value.hostBits
  · rw [if_pos hmax, if_pos rfl, hmax]
  rw [if_neg hmax]
  by_cases hmin : value.isSigned = true ∧ x = lowest value.isSigned value.hostBits
  · have hlt := hlowlt hmin.1
    rw [if_pos hmin, if_neg (by omega), if_pos rfl, hmin.2]
  · rw [if_neg hmin, if_neg (by omega)]
    by_cases hlowest : x = lowest value.isSigned value.guestBits
    · -- only an unsigned type has its least value on both sides
      rw [if_pos hlowest]
      exact congrArg Except.ok (by omega)
    · rw [if_neg hlowest, if_pos hx]

/-- **Back and there**: a guest's value faults exactly when it is not the host's and no bound of
the guest's type; otherwise, unless it is a bound of the host's type, it is what the result is
widened to. -/
theorem integerToGuest_narrowed (h : value.NarrowerOnHost) {x slot : Int}
    (hx : InRange value.isSigned value.guestBits x) (hslot : slot % 2 ^ 64 = x % 2 ^ 64)
    (symbol : String) (index : Nat) :
    ((∃ fault, integerToHost value slot symbol index = .error fault) ↔
        ¬ InRange value.isSigned value.hostBits x ∧
          x ≠ lowest value.isSigned value.guestBits ∧
          x ≠ highest value.isSigned value.guestBits) ∧
      ∀ y, integerToHost value slot symbol index = .ok y →
        x ≠ lowest value.isSigned value.hostBits → x ≠ highest value.isSigned value.hostBits →
        integerToGuest value y = wrap false 64 x := by
  rw [integerToHost_eq h hx hslot]
  obtain ⟨hlow, hhigh, hlowlt, hle⟩ := h.bounds value.isSigned
  have hends : InRange value.isSigned value.hostBits (highest value.isSigned value.hostBits) ∧
      InRange value.isSigned value.hostBits (lowest value.isSigned value.hostBits) :=
    ⟨⟨hle, Int.le_refl _⟩, ⟨Int.le_refl _, hle⟩⟩
  by_cases hmax : x = highest value.isSigned value.guestBits
  · rw [if_pos hmax]
    refine ⟨⟨fun hfault => (not_faults hfault).elim, fun hno => absurd hmax hno.2.2⟩,
      fun y hy _ _ => ?_⟩
    injection hy with hy
    rw [← hy, integerToGuest_eq h hends.1, Value.widened, if_pos rfl, hmax]
  rw [if_neg hmax]
  by_cases hmin : x = lowest value.isSigned value.guestBits
  · rw [if_pos hmin]
    refine ⟨⟨fun hfault => (not_faults hfault).elim, fun hno => absurd hmin hno.2.1⟩,
      fun y hy hne _ => ?_⟩
    injection hy with hy
    cases hsigned : value.isSigned with
    | true =>
        rw [hsigned] at hy hmin hends hle
        have hlt : lowest true value.hostBits ≠ highest true value.hostBits := by
          have hpos : (0 : Int) < 2 ^ (value.hostBits - 1) := by positivity
          simp only [lowest, highest, if_true]
          omega
        rw [← hy, integerToGuest_eq h (by rw [hsigned]; exact hends.2), Value.widened, hsigned,
          if_neg hlt, if_pos ⟨rfl, rfl⟩, hmin]
    | false =>
        -- an unsigned type has the same least value on both sides
        rw [hsigned] at hmin hne
        exact absurd hmin hne
  rw [if_neg hmin]
  by_cases hin : InRange value.isSigned value.hostBits x
  · rw [if_pos hin]
    refine ⟨⟨fun hfault => (not_faults hfault).elim, fun hno => absurd hin hno.1⟩,
      fun y hy hne hne' => ?_⟩
    injection hy with hy
    rw [← hy, integerToGuest_eq h hin, Value.widened, if_neg hne', if_neg (fun h => hne h.2)]
  · rw [if_neg hin]
    exact ⟨⟨fun _ => ⟨hin, hmin, hmax⟩, fun _ => ⟨_, rfl⟩⟩, fun y hy => by cases hy⟩

end

/-! ## Pointers -/

/-- The sentinels are sign-extended. -/
theorem xlWidenPointer_eq {x : Int} (hx : InRange false 32 x) :
    xlWidenPointer x = if 0xFFFFFF00 ≤ x then x + (2 ^ 64 - 2 ^ 32) else x := by
  simp only [InRange, lowest, highest, Bool.false_eq_true, if_false] at hx
  unfold xlWidenPointer
  by_cases h : 0xFFFFFF00 ≤ x
  · have hsigned : wrap true 32 x = x - 2 ^ 32 := by
      show x.bmod (2 ^ 32) = x - 2 ^ 32
      rw [← Int.sub_bmod_right]
      exact Int.bmod_eq_of_le_mul_two (by push_cast; omega) (by push_cast; omega)
    rw [if_pos h, if_pos h, hsigned]
    show (x - 2 ^ 32) % 2 ^ 64 = _
    omega
  · rw [if_neg h, if_neg h]

theorem xlNarrowPointer_widened {x : Int} (hx : InRange false 32 x) (symbol : String)
    (index : Nat) : xlNarrowPointer (xlWidenPointer x) symbol index = .ok x := by
  rw [xlWidenPointer_eq hx]
  simp only [InRange, lowest, highest, Bool.false_eq_true, if_false] at hx
  unfold xlNarrowPointer
  by_cases h : 0xFFFFFF00 ≤ x
  · rw [if_pos h, if_pos (by omega), if_pos (by omega)]
    show Except.ok ((x + (2 ^ 64 - 2 ^ 32)) % 2 ^ 32) = _
    rw [show (x + (2 ^ 64 - 2 ^ 32)) % 2 ^ 32 = x by omega]
  · rw [if_neg h, if_neg (by omega)]
    show Except.ok (x % 2 ^ 32) = _
    rw [show x % 2 ^ 32 = x by omega]

theorem xlWidenPointer_narrowed {x : Int} (hx : InRange false 64 x) (symbol : String)
    (index : Nat) :
    ((∃ fault, xlNarrowPointer x symbol index = .error fault) ↔
        x / 2 ^ 32 ≠ 0 ∧ x < 0xFFFFFFFFFFFFFF00) ∧
      ∀ y, xlNarrowPointer x symbol index = .ok y → ¬ (0xFFFFFF00 ≤ x ∧ x ≤ 0xFFFFFFFF) →
        xlWidenPointer y = x := by
  simp only [InRange, lowest, highest, Bool.false_eq_true, if_false] at hx
  unfold xlNarrowPointer
  by_cases hhigh : x / 2 ^ 32 ≠ 0
  · rw [if_pos hhigh]
    by_cases hsentinel : 0xFFFFFFFFFFFFFF00 ≤ x
    · rw [if_pos hsentinel]
      refine ⟨⟨fun hfault => (not_faults hfault).elim, fun hno => (by omega)⟩, fun y hy _ => ?_⟩
      injection hy with hy
      have hlow : y = x - (2 ^ 64 - 2 ^ 32) := by
        rw [← hy]
        show x % 2 ^ 32 = _
        omega
      have hy32 : InRange false 32 y := by
        simp only [InRange, lowest, highest, Bool.false_eq_true, if_false]
        omega
      rw [xlWidenPointer_eq hy32, if_pos (by omega)]
      omega
    · rw [if_neg hsentinel]
      exact ⟨⟨fun _ => ⟨hhigh, by omega⟩, fun _ => ⟨_, rfl⟩⟩, fun y hy => by cases hy⟩
  · rw [if_neg hhigh]
    refine ⟨⟨fun hfault => (not_faults hfault).elim, fun hno => absurd hno.1 hhigh⟩,
      fun y hy hno => ?_⟩
    injection hy with hy
    have hsame : y = x := by
      rw [← hy]
      show x % 2 ^ 32 = x
      omega
    have hy32 : InRange false 32 y := by
      simp only [InRange, lowest, highest, Bool.false_eq_true, if_false]
      omega
    rw [xlWidenPointer_eq hy32, if_neg (by omega), hsame]

end Katabasis
