import Katabasis.Runtime.BlockSignatures
import Katabasis.Runtime.DynamicAgreement

set_option autoImplicit false

/-! # Calls of a guest's block

The host calls a block of the guest through a block of its own. For a block that comes out of a
collection this is the wrapper of `xl_wrapper_for`, whose trampolines (`xl_block_t0` to
`xl_block_t4`, `runtime/objc_bridge.m`) pass the words of the call in the guest's registers; for a
parameter of a known block type it is the block that `BlockBridge` generates
(`xlate/src/xlgen.cpp`), which converts each argument.

`Agrees` says that the guest's block gets the same arguments from both, and the host the same
result. **`trampolines_agree_iff`**: a register is zero-extended from a word, so an integer of 64
bits must not be negative nor a bound, an object must be passed as it is, and a block must be
`nil`; and an argument of two words leaves everything behind it a register late.

On the host, arguments lie in consecutive words, as iOS has it on armv7.
-/

namespace Katabasis

namespace BlockTrampolines

open ArgumentWords CIntegers DynamicSend IntegerPairs Signatures

/-! ## The host's call -/

/-- The value is of the host's type. -/
def HostFits : Declared → Int → Prop
  | .plain _ (.integer w signed), y => InRange signed w.bits y
  | _, y => InRange false 32 y

/-- An argument that the host passes to the block. -/
structure HostArgument where
  param : BlockParam
  value : Int
  fits : HostFits param.declared value

def hostWords (declared : Declared) (y : Int) : Words Int :=
  if DynamicSend.isWide declared then .two (wrap false 32 y) (wrap false 32 (y / 2 ^ 32))
  else .one (wrap false 32 y)

/-- The words of the call, behind the one for the block. -/
def laid (args : List HostArgument) : List Int :=
  args.flatMap fun a => (hostWords a.param.declared a.value).toList

/-! ## The wrapper -/

/-- `xl_block_call`: the registers of the guest from `X0` on. -/
def xlBlockCall (guest : Int) (args : List Int) : List Int := guest :: args

/-- The invocation that `xl_wrapper_for` chooses: `xl_block_t0` to `xl_block_t4`, which take so
many words, or `xl_block_unsupported_invoke`. -/
def xlWrapperInvoke (signature : Option (List Char)) (guest : Int) (words : List Int) :
    Option (List Int) :=
  (xlBlockSimpleArgs signature).map fun n => xlBlockCall guest (words.take n)

/-- What the host takes for the result: the trampoline returns a word, and the word behind it is
what the second register happens to hold. -/
def trampolineResult (declared : Declared) (x0 leftover : Int) : Int :=
  decode declared
    (if DynamicSend.isWide declared then .two (wrap false 32 x0) leftover
    else .one (wrap false 32 x0))

/-! ## The generated block -/

/-- The blocks that the functions of `HostBlockBridge` make for the host's, and the objects that
`xl_object_out` passes: an address for an address, and zero for `nil` alone. A block that is made
is not at the address of another. -/
structure Outward (o : Objects) where
  hostBlockWrap : Int → Int
  wrap_zero : hostBlockWrap 0 = 0
  wrap_own : ∀ y, y ≠ 0 → InRange false 32 (hostBlockWrap y) ∧ hostBlockWrap y ≠ 0 ∧
    hostBlockWrap y ≠ y
  objectOut : ∀ y, InRange false 32 y →
    InRange false 64 (o.xlObjectOut y) ∧ (o.xlObjectOut y = 0 ↔ y = 0)

section

variable {o : Objects} (out : Outward o)

/-- The register for an argument: a block is wrapped, anything else is converted as a result is
(`ScalarToGuest`, and the cast to the guest's type). -/
def bridgeArgument (param : BlockParam) (y : Int) : Int :=
  match param.declared with
  | .plain (.pointer .block) _ => out.hostBlockWrap y
  | declared => bridgeResult o param.isBool declared y

/-- The value that the generated block returns to the host, from what the guest's leaves in
`X0`. -/
def bridgeReturn (o : Objects) (id : String) (declared : Declared) (x0 : Int) : Narrowed Int :=
  let value := (classifyResult declared).toValue
  match value.kind with
  | .integer => integerToHost value (wrap false 64 (guestValue declared x0)) id 99
  | _ => pointerToHost o.machinery value x0 id 99

/-! ## When the two agree -/

/-- The guest finds the same argument in the register. -/
def SameArgument (a : HostArgument) (register : Int) : Prop :=
  wrap false (registerBits a.param.declared) register
    = wrap false (registerBits a.param.declared) (bridgeArgument out a.param a.value)

/-- **The wrapper agrees with the generated block**, for a guest's block that leaves `x0`. -/
structure Agrees (id : String) (b : BlockType) (guest : Int) (args : List HostArgument)
    (x0 leftover : Int) : Prop where
  arguments : ∃ registers,
    xlWrapperInvoke (some b.signature) guest (laid args) = some (guest :: registers) ∧
      List.Forall₂ (SameArgument out) args registers
  returned : ∀ declared, b.result = .declared declared →
    bridgeReturn o id declared x0 = .ok (trampolineResult declared x0 leftover)

/-- An argument of one word that is passed as it is. -/
def PlainArgument (o : Objects) (a : HostArgument) : Prop :=
  match a.param.declared with
  | .plain (.integer w signed) (.integer w' _) =>
      (w'.bits < w.bits → a.value ≠ highest signed w'.bits ∧
        (signed = true → a.value ≠ lowest signed w'.bits)) ∧
      (w.bits < 32 → InRange signed w.bits a.value) ∧
      (a.param.isBool = true → a.value = 0 ∨ a.value = 1) ∧ (w.bits = 64 → 0 ≤ a.value)
  | .plain (.pointer .object) _ => o.xlObjectOut a.value = a.value
  | .plain (.pointer .block) _ => a.value = 0
  | _ => a.value < 0xFFFFFF00

/-- The arguments are plain up to the first of two words, which has its upper one zero, and zero
behind it. -/
def Straight (o : Objects) : List HostArgument → Prop
  | [] => True
  | a :: rest =>
      if DynamicSend.isWide a.param.declared then
        (0 ≤ a.value ∧ a.value < 2 ^ 32) ∧ ∀ b ∈ rest, b.value = 0
      else PlainArgument o a ∧ Straight o rest

/-- The result is what its lower word says. -/
def PlainReturn (o : Objects) (x0 leftover : Int) : Declared → Prop
  | .plain (.integer w signed) (.integer w' signed') =>
      (w'.bits < w.bits → signed = true →
        wrap signed w.bits x0 ≠ highest true w.bits ∧ wrap signed w.bits x0 ≠ lowest true w.bits) ∧
      (DynamicSend.isWide (.plain (.integer w signed) (.integer w' signed')) = true →
        leftover = x0 / 2 ^ 32)
  | .plain (.pointer .object) _ =>
      o.xlIsGuestBlock x0 = false ∧ o.xlClassIn (wrap false 32 x0) = wrap false 32 x0
  | _ => True

end

/-! ## One argument -/

/-- An argument of two words has 64 bits on both sides. -/
theorem width_of_isWide {w w' : IntWidth} {signed signed' : Bool} (hle : w'.bits ≤ w.bits)
    (hwide : DynamicSend.isWide (.plain (.integer w signed) (.integer w' signed')) = true) :
    w' = .w64 ∧ w = .w64 := by
  cases w' with
  | w64 =>
      cases w with
      | w64 => exact ⟨rfl, rfl⟩
      | _ => exact absurd hle (by decide)
  | _ => cases hwide

section

variable {w w' : IntWidth} {signed signed' : Bool} {y : Int}

/-- A word that is zero-extended to the register of an integer. -/
theorem word_eq_register_iff (hle : w'.bits ≤ w.bits) (hnarrow : w'.bits ≤ 32)
    (hy : InRange signed' w'.bits y) :
    wrap false (max w.bits 32) (wrap false 32 y) = wrap false (max w.bits 32)
        (wrap signed w.bits (integerToGuest (pair w w' signed signed') y)) ↔
      (w'.bits < w.bits → y ≠ highest signed w'.bits ∧
        (signed = true → y ≠ lowest signed w'.bits)) ∧
      (w.bits < 32 → InRange signed w.bits y) ∧ (w.bits = 64 → 0 ≤ y) := by
  by_cases hw : w.bits = 64
  · obtain ⟨hlow, hhigh⟩ := (bounds_of_inRange hy).2.2.1 (by omega)
    by_cases hpositive : 0 ≤ y
    · have hword : wrap false 32 y = wrap false 64 y := by
        rw [wrap_of_inRange (by decide) (show InRange false 32 y from ⟨hpositive, by
          show y ≤ 2 ^ 32 - 1
          omega⟩), wrap_of_inRange (by decide) (show InRange false 64 y from ⟨hpositive, by
          show y ≤ 2 ^ 64 - 1
          omega⟩)]
      rw [hword, register_eq_iff hle hy]
      simp [hw, hpositive]
    · -- the upper half of a negative number is not zero
      refine iff_of_false (fun h => ?_) fun h => hpositive (h.2.2 hw)
      have hmax : max w.bits 32 = w.bits := Nat.max_eq_left (by omega)
      rw [integerToGuest_spec hle hy, wrap_wrap (width_le w), hmax, wrap_eq_iff, wrap_emod, hw] at h
      have hword : wrap false 32 y % 2 ^ 64 < 2 ^ 32 := by
        show y % 2 ^ 32 % 2 ^ 64 < 2 ^ 32
        omega
      have hends : 0 ≤ highest signed w'.bits ∧
          (signed = true → lowest signed 64 % 2 ^ 64 = 2 ^ 63) := by
        cases signed <;> cases w' <;> decide
      have hwide : 2 ^ 32 ≤ (pair w w' signed signed').widened y % 2 ^ 64 := by
        show 2 ^ 32 ≤ (if y = highest signed w'.bits then highest signed w.bits
          else if signed = true ∧ y = lowest signed w'.bits then lowest signed w.bits else y)
            % 2 ^ 64
        rw [hw]
        split_ifs with hmaximum hminimum
        · omega
        · rw [hends.2 hminimum.1]
          decide
        · omega
      omega
  · have hmax : max w.bits 32 = 32 := by cases w <;> first | rfl | exact absurd rfl hw
    have hword : wrap false (max w.bits 32) (wrap false 32 y)
        = wrap false (max w.bits 32) (wrap false 64 y) := by
      rw [hmax, wrap_wrap (by decide), wrap_wrap (by decide)]
    rw [hword, register_eq_iff hle hy]
    simp [hw]

/-- The same of an integer that has 64 bits on both sides, of which it is the lower half. -/
theorem lowerWord_eq_register_iff (hy : InRange signed' 64 y) :
    wrap false 64 (wrap false 32 y) = wrap false 64
        (wrap signed 64 (integerToGuest (pair .w64 .w64 signed signed') y)) ↔
      0 ≤ y ∧ y < 2 ^ 32 := by
  have hbounds := @bounds_of_inRange .w64 _ _ hy
  rw [@integerToGuest_spec .w64 .w64 signed signed' y (Nat.le_refl _) hy, widened_same rfl,
    wrap_wrap (Nat.le_refl _), wrap_wrap (Nat.le_refl _), wrap_eq_iff]
  show y % 2 ^ 32 % 2 ^ 64 = y % 2 ^ 64 ↔ _
  omega

theorem wrap_address (hy : InRange false 32 y) : wrap false 32 y = y ∧ wrap false 64 y = y := by
  refine ⟨wrap_of_inRange (by decide) hy, wrap_of_inRange (by decide) ⟨hy.1, ?_⟩⟩
  exact Int.le_trans hy.2 (by decide)

end

section

variable {o : Objects} (out : Outward o)

theorem bridgeArgument_integer {param : BlockParam} {w w' : IntWidth} {signed signed' : Bool}
    (h : param.declared = .plain (.integer w signed) (.integer w' signed')) (y : Int) :
    bridgeArgument out param y =
      if param.isBool then if integerToGuest (pair w w' signed signed') y = 0 then 0 else 1
      else wrap signed w.bits (integerToGuest (pair w w' signed signed') y) := by
  unfold bridgeArgument
  rw [h]
  rfl

theorem bridgeArgument_block {param : BlockParam} {h : CType}
    (hdeclared : param.declared = .plain (.pointer .block) h) (y : Int) :
    bridgeArgument out param y = out.hostBlockWrap y := by
  unfold bridgeArgument
  rw [hdeclared]

/-- Any other pointer, and whether it is an object. -/
theorem bridgeArgument_pointer {param : BlockParam} {kind : PointerKind} (hblock : kind ≠ .block)
    (h : param.declared = .plain (.pointer kind) (.pointer kind)) (y : Int) :
    bridgeArgument out param y =
      pointerToGuest o.machinery (classify (.pointer kind) (.pointer kind)) y := by
  unfold bridgeArgument
  rw [h]
  cases kind with
  | block => exact absurd rfl hblock
  | _ => rfl

theorem bridgeArgument_data {param : BlockParam} {g h : CType} {passes isConst : Bool}
    (hdeclared : param.declared = .pointer g h passes isConst) (y : Int) :
    bridgeArgument out param y =
      pointerToGuest o.machinery (classifyResult (.pointer g h passes isConst)).toValue y := by
  unfold bridgeArgument
  rw [hdeclared]
  rfl

/-- What the sides of a parameter can be. -/
theorem sides_cases {declared : Declared} (h : Sides declared) :
    (∃ w w' signed signed', declared = .plain (.integer w signed) (.integer w' signed') ∧
        w'.bits ≤ w.bits) ∨
      (∃ kind, declared = .plain (.pointer kind) (.pointer kind)) ∨
      ∃ g h passes isConst, declared = .pointer g h passes isConst := by
  cases h with
  | integer signed signed' hle => exact .inl ⟨_, _, _, _, rfl, hle⟩
  | pointer kind => exact .inr (.inl ⟨kind, rfl⟩)
  | data g h passes isConst => exact .inr (.inr ⟨g, h, passes, isConst, rfl⟩)

/-- A word for an integer. -/
theorem sameInteger_iff {a : HostArgument} {w w' : IntWidth} {signed signed' : Bool}
    (h : a.param.declared = .plain (.integer w signed) (.integer w' signed'))
    (hle : w'.bits ≤ w.bits) (hnarrow : DynamicSend.isWide a.param.declared = false) :
    SameArgument out a (wrap false 32 a.value) ↔ PlainArgument o a := by
  have hfits : InRange signed' w'.bits a.value := by
    have := a.fits
    rwa [h] at this
  have hword : w'.bits ≤ 32 := by
    rw [h] at hnarrow
    cases w' with
    | w64 => cases hnarrow
    | _ => decide
  unfold SameArgument PlainArgument
  rw [bridgeArgument_integer out h, h]
  by_cases hbool : a.param.isBool = true
  · obtain ⟨host, hhost⟩ := a.param.bool hbool
    rw [h] at hhost
    cases hhost
    have hle8 : w'.bits ≤ 8 := hle
    rw [if_pos hbool, hbool]
    have hregister : wrap false (registerBits (.plain (.integer .w8 false) (.integer w' signed')))
        (wrap false 32 a.value) = wrap false (max 8 32) (wrap false 64 a.value) := by
      show wrap false 32 _ = wrap false 32 _
      rw [wrap_wrap (by decide), wrap_wrap (by decide)]
    rw [hregister]
    refine (register_eq_bool_iff hfits hle8).trans ⟨fun hvalue => ⟨fun hlt => ?_, fun _ => ?_,
      fun _ => hvalue, fun h64 => (by cases h64)⟩, fun h => h.2.2.1 rfl⟩
    · cases w' <;> exact absurd hlt (by decide)
    · rcases hvalue with hvalue | hvalue <;> rw [hvalue] <;> decide
  · rw [if_neg hbool]
    refine (word_eq_register_iff hle hword hfits).trans ?_
    simp [hbool]

/-- **A word is what the generated block passes** for a plain argument. -/
theorem sameArgument_word_iff {a : HostArgument} (hsides : Sides a.param.declared)
    (hnarrow : DynamicSend.isWide a.param.declared = false) :
    SameArgument out a (wrap false 32 a.value) ↔ PlainArgument o a := by
  have hfits := a.fits
  rcases sides_cases hsides with
    ⟨w, w', signed, signed', h, hle⟩ | ⟨kind, h⟩ | ⟨g, host, passes, isConst, h⟩
  · exact sameInteger_iff out h hle hnarrow
  · rw [h] at hfits
    have hrange : InRange false 32 a.value := hfits
    obtain ⟨hself, hself'⟩ := wrap_address hrange
    unfold SameArgument PlainArgument
    by_cases hblock : kind = .block
    · subst hblock
      rw [bridgeArgument_block out h, h, hself]
      show wrap false 64 a.value = wrap false 64 (out.hostBlockWrap a.value) ↔ a.value = 0
      rw [hself']
      constructor
      · intro heq
        by_contra hne
        obtain ⟨hwrapped, -, hother⟩ := out.wrap_own a.value hne
        rw [(wrap_address hwrapped).2] at heq
        exact hother heq.symm
      · intro hzero
        rw [hzero, out.wrap_zero]
        rfl
    · rw [bridgeArgument_pointer out hblock h, h, hself]
      by_cases hobject : kind = .object
      · subst hobject
        rw [pointerToGuest_eq o _ hrange]
        show wrap false 64 a.value = wrap false 64 (o.xlObjectOut a.value) ↔
          o.xlObjectOut a.value = a.value
        rw [hself', wrap_of_inRange (by decide) (out.objectOut _ hrange).1, eq_comm]
      · have hpointer := protocolResult_iff o (classify (.pointer kind) (.pointer kind))
          (by cases kind <;> first | rfl | exact absurd rfl hobject) hrange
        cases kind with
        | block => exact absurd rfl hblock
        | object => exact absurd rfl hobject
        | _ => exact hpointer
  · rw [h] at hfits
    have hrange : InRange false 32 a.value := hfits
    unfold SameArgument PlainArgument
    rw [bridgeArgument_data out h, h, (wrap_address hrange).1]
    exact protocolResult_iff o _ rfl hrange

/-- The lower word of an argument that has two. -/
theorem sameArgument_wide_iff {a : HostArgument} (hsides : Sides a.param.declared)
    (hwide : DynamicSend.isWide a.param.declared = true) :
    SameArgument out a (wrap false 32 a.value) ↔ 0 ≤ a.value ∧ a.value < 2 ^ 32 := by
  have hfits := a.fits
  rcases sides_cases hsides with
    ⟨w, w', signed, signed', h, hle⟩ | ⟨kind, h⟩ | ⟨g, host, passes, isConst, h⟩
  · obtain ⟨rfl, rfl⟩ := width_of_isWide hle (h ▸ hwide)
    rw [h] at hfits
    have hbool : a.param.isBool ≠ true := by
      intro hbool
      obtain ⟨host, hhost⟩ := a.param.bool hbool
      rw [h] at hhost
      cases hhost
    unfold SameArgument
    rw [bridgeArgument_integer out h, h, if_neg hbool]
    exact lowerWord_eq_register_iff hfits
  · rw [h] at hwide
    cases hwide
  · rw [h] at hwide
    cases hwide

theorem pointerToGuest_eq_zero_iff (outward : Outward o) (value : Value) {y : Int}
    (hy : InRange false 32 y) :
    wrap false 64 (pointerToGuest o.machinery value y) = 0 ↔ y = 0 := by
  rw [pointerToGuest_eq o value hy]
  split_ifs with hobject
  · obtain ⟨hrange, hnull⟩ := outward.objectOut y hy
    rw [wrap_of_inRange (by decide) hrange, hnull]
  · rw [xlWidenPointer_eq hy]
    simp only [InRange, lowest, highest, Bool.false_eq_true, if_false] at hy
    show (if 0xFFFFFF00 ≤ y then y + (2 ^ 64 - 2 ^ 32) else y) % 2 ^ 64 = 0 ↔ y = 0
    split_ifs <;> omega

theorem hostBlockWrap_eq_zero_iff (y : Int) :
    wrap false 64 (out.hostBlockWrap y) = 0 ↔ y = 0 := by
  by_cases hy : y = 0
  · rw [hy, out.wrap_zero]
    exact iff_of_true rfl rfl
  · obtain ⟨hrange, hnull, -⟩ := out.wrap_own y hy
    rw [(wrap_address hrange).2]
    exact iff_of_false hnull hy

/-- An empty register is right for zero and `nil`. -/
theorem sameArgument_zero_iff {a : HostArgument} (hsides : Sides a.param.declared) :
    SameArgument out a 0 ↔ a.value = 0 := by
  have hfits := a.fits
  have hzero : ∀ {bits : Nat} {x : Int}, wrap false bits 0 = wrap false bits x ↔
      wrap false bits x = 0 := by
    intro bits x
    have : wrap false bits 0 = 0 := by simp [wrap]
    rw [this, eq_comm]
  rcases sides_cases hsides with
    ⟨w, w', signed, signed', h, hle⟩ | ⟨kind, h⟩ | ⟨g, host, passes, isConst, h⟩
  · rw [h] at hfits
    unfold SameArgument
    rw [hzero, bridgeArgument_integer out h, h]
    by_cases hbool : a.param.isBool = true
    · rw [if_pos hbool, ← @integerToGuest_eq_zero_iff w w' signed signed' _ hle hfits]
      split_ifs with hnull
      · simp [wrap, hnull]
      · have hone : wrap false (max w.bits 32) 1 ≠ 0 := by cases w <;> decide
        exact iff_of_false hone hnull
    · rw [if_neg hbool]
      exact register_eq_zero_iff hle hfits
  · rw [h] at hfits
    have hrange : InRange false 32 a.value := hfits
    unfold SameArgument
    rw [hzero, h]
    by_cases hblock : kind = .block
    · subst hblock
      rw [bridgeArgument_block out h]
      exact hostBlockWrap_eq_zero_iff out a.value
    · rw [bridgeArgument_pointer out hblock h]
      exact pointerToGuest_eq_zero_iff out _ hrange
  · rw [h] at hfits
    unfold SameArgument
    rw [hzero, bridgeArgument_data out h, h]
    exact pointerToGuest_eq_zero_iff out _ hfits

/-! ## All arguments -/

theorem hostWords_zero (declared : Declared) :
    ∀ word ∈ (hostWords declared 0).toList, word = 0 := by
  unfold hostWords
  split_ifs <;> simp [Words.toList, wrap]

theorem hostWords_ne_nil (declared : Declared) (y : Int) : (hostWords declared y).toList ≠ [] := by
  unfold hostWords
  split_ifs <;> simp [Words.toList]

/-- Once there are empty words left over, every register is late by them: it is right for zero
alone, which leaves more of them. -/
theorem late_iff {args : List HostArgument} (hsides : ∀ a ∈ args, Sides a.param.declared)
    {pending : List Int} (hpending : pending ≠ []) (hzero : ∀ word ∈ pending, word = 0) :
    List.Forall₂ (SameArgument out) args ((pending ++ laid args).take args.length) ↔
      ∀ a ∈ args, a.value = 0 := by
  induction args generalizing pending with
  | nil => simp
  | cons a rest ih =>
      obtain ⟨word, more, rfl⟩ := List.exists_cons_of_ne_nil hpending
      rw [hzero word List.mem_cons_self, List.cons_append, List.length_cons, List.take_succ_cons,
        List.forall₂_cons, sameArgument_zero_iff out (hsides a List.mem_cons_self),
        List.forall_mem_cons]
      apply and_congr_right
      intro ha
      have hlaid : more ++ laid (a :: rest)
          = (more ++ (hostWords a.param.declared a.value).toList) ++ laid rest := by
        rw [laid, List.flatMap_cons, ← List.append_assoc]
        rfl
      rw [hlaid]
      apply ih (fun b hb => hsides b (List.mem_cons_of_mem _ hb))
      · exact List.append_ne_nil_of_right_ne_nil _ (hostWords_ne_nil _ _)
      · rw [ha]
        intro w hw
        rcases List.mem_append.mp hw with hw | hw
        · exact hzero w (List.mem_cons_of_mem _ hw)
        · exact hostWords_zero _ w hw

/-- **When all registers are right.** -/
theorem arguments_iff {args : List HostArgument} (hsides : ∀ a ∈ args, Sides a.param.declared) :
    List.Forall₂ (SameArgument out) args ((laid args).take args.length) ↔ Straight o args := by
  induction args with
  | nil => simp [Straight]
  | cons a rest ih =>
      have hhere := hsides a List.mem_cons_self
      have hrest := fun b hb => hsides b (List.mem_cons_of_mem a hb)
      rw [laid, List.flatMap_cons, List.length_cons, Straight]
      by_cases hwide : DynamicSend.isWide a.param.declared = true
      · rw [if_pos hwide, hostWords, if_pos hwide]
        show List.Forall₂ _ _ (wrap false 32 a.value
          :: ([wrap false 32 (a.value / 2 ^ 32)] ++ laid rest).take rest.length) ↔ _
        rw [List.forall₂_cons, sameArgument_wide_iff out hhere hwide]
        apply and_congr_right
        rintro ⟨hlow, hhigh⟩
        apply late_iff out hrest (List.cons_ne_nil _ _)
        intro word hword
        rw [List.mem_singleton.mp hword]
        show a.value / 2 ^ 32 % 2 ^ 32 = 0
        omega
      · rw [if_neg hwide, hostWords, if_neg hwide]
        show List.Forall₂ _ _ (wrap false 32 a.value :: (laid rest).take rest.length) ↔ _
        rw [List.forall₂_cons, sameArgument_word_iff out hhere (by simpa using hwide), ih hrest]

end

/-! ## The result -/

section

variable {o : Objects} {id : String} {x0 leftover y : Int}

/-- A pointer that is narrowed is the lower word. -/
theorem narrowedReturn_eq {value : Value} (hobject : value.isObject = false)
    (hx0 : InRange false 64 x0) (h : pointerToHost o.machinery value x0 id 99 = .ok y) :
    y = wrap false 32 x0 := by
  unfold pointerToHost at h
  rw [hobject, wrap_of_inRange (by decide) hx0] at h
  obtain ⟨a, ha, rfl⟩ := Fallible.map_eq_ok h
  rw [(narrowPointer_spec hx0 ha).1]
  exact wrap_wrap (Nat.le_refl _) x0

theorem objectReturn_iff (hown : ∀ x, o.xlIsGuestBlock x = true → o.xlWrapperFor x ≠ x)
    {value : Value} (hobject : value.isObject = true) (hx0 : InRange false 64 x0)
    (h : pointerToHost o.machinery value x0 id 99 = .ok y) :
    y = wrap false 32 x0 ↔
      o.xlIsGuestBlock x0 = false ∧ o.xlClassIn (wrap false 32 x0) = wrap false 32 x0 := by
  unfold pointerToHost at h
  rw [hobject, wrap_of_inRange (by decide) hx0] at h
  obtain ⟨a, ha, rfl⟩ := Fallible.map_eq_ok h
  rw [wrap_of_inRange (by decide) (objectIn_spec o hx0 ha).1]
  exact lowerWord_eq_iff hown hx0 ha

theorem integerReturn_iff {w w' : IntWidth} {signed signed' : Bool} (hle : w'.bits ≤ w.bits)
    (hx0 : InRange false 64 x0) (hleftover : InRange false 32 leftover)
    (h : integerToHost (pair w w' signed signed') (wrap false 64 (wrap signed w.bits x0)) id 99
      = .ok y) :
    y = trampolineResult (.plain (.integer w signed) (.integer w' signed')) x0 leftover ↔
      PlainReturn o x0 leftover (.plain (.integer w signed) (.integer w' signed')) := by
  have hbits := lowerBits_eq_iff hle (inRange_wrap signed (width_pos w) x0) h
  rw [wrap_wrap hle] at hbits
  unfold trampolineResult PlainReturn
  by_cases hwide : DynamicSend.isWide (.plain (.integer w signed) (.integer w' signed')) = true
  · obtain ⟨rfl, rfl⟩ := width_of_isWide hle hwide
    have hsame := hbits.mpr fun hlt => absurd hlt (Nat.lt_irrefl _)
    simp only [InRange, lowest, highest, Bool.false_eq_true, if_false] at hx0 hleftover
    rw [← hsame]
    show wrap signed' 64 x0 = wrap signed' 64 (x0 % 2 ^ 32 + 2 ^ 32 * leftover) ↔ _
    rw [wrap_eq_iff]
    constructor
    · intro heq
      exact ⟨fun hlt => absurd hlt (Nat.lt_irrefl _), fun _ => by omega⟩
    · rintro ⟨-, hupper⟩
      have := hupper rfl
      omega
  · rw [if_neg hwide]
    have hnarrow : w'.bits ≤ 32 := by
      cases w' with
      | w64 => exact absurd rfl hwide
      | _ => decide
    show y = wrap signed' w'.bits (wrap false 32 x0) ↔ _
    rw [wrap_wrap hnarrow, eq_comm, hbits]
    exact ⟨fun h => ⟨h, fun hw => absurd hw hwide⟩, fun h => h.1⟩

/-- **When the host has the generated block's result.** -/
theorem blockReturn_iff {declared : Declared} (hsides : Sides declared)
    (hown : ∀ x, o.xlIsGuestBlock x = true → o.xlWrapperFor x ≠ x) (hx0 : InRange false 64 x0)
    (hleftover : InRange false 32 leftover) (h : bridgeReturn o id declared x0 = .ok y) :
    bridgeReturn o id declared x0 = .ok (trampolineResult declared x0 leftover) ↔
      PlainReturn o x0 leftover declared := by
  rw [h, Except.ok.injEq]
  have hlower : wrap false 32 (wrap false 32 x0) = wrap false 32 x0 :=
    wrap_wrap (Nat.le_refl _) x0
  rcases sides_cases hsides with
    ⟨w, w', signed, signed', rfl, hle⟩ | ⟨kind, rfl⟩ | ⟨g, host, passes, isConst, rfl⟩
  · exact integerReturn_iff hle hx0 hleftover h
  · have hword : trampolineResult (.plain (.pointer kind) (.pointer kind)) x0 leftover
        = wrap false 32 x0 := hlower
    rw [hword]
    by_cases hobject : kind = .object
    · subst hobject
      exact objectReturn_iff hown rfl hx0 h
    · have hpointer : pointerToHost o.machinery (classify (.pointer kind) (.pointer kind)) x0 id 99
          = .ok y := by
        cases kind with
        | object => exact absurd rfl hobject
        | data passes => cases passes <;> exact h
        | _ => exact h
      have hplain : PlainReturn o x0 leftover (.plain (.pointer kind) (.pointer kind)) := by
        cases kind with
        | object => exact absurd rfl hobject
        | _ => trivial
      refine iff_of_true (narrowedReturn_eq ?_ hx0 hpointer) hplain
      cases kind with
      | object => exact absurd rfl hobject
      | _ => rfl
  · have hword : trampolineResult (.pointer g host passes isConst) x0 leftover
        = wrap false 32 x0 := hlower
    rw [hword]
    have hpointer : pointerToHost o.machinery
        (classifyResult (.pointer g host passes isConst)).toValue x0 id 99 = .ok y := by
      cases passes <;> exact h
    exact iff_of_true (narrowedReturn_eq rfl hx0 hpointer) trivial

end

/-! ## The two calls -/

/-- **When the wrapper agrees with the generated block**, of a block whose signature the runtime
accepts and whose result the generated block returns. -/
theorem trampolines_agree_iff {o : Objects} (out : Outward o)
    (hown : ∀ x, o.xlIsGuestBlock x = true → o.xlWrapperFor x ≠ x) (id : String) {b : BlockType}
    {n : Nat} (hsignature : xlBlockSimpleArgs (some b.signature) = some n) (guest : Int)
    {args : List HostArgument} (hargs : args.map HostArgument.param = b.params) {x0 leftover : Int}
    (hx0 : InRange false 64 x0) (hleftover : InRange false 32 leftover)
    (hreturns : ∀ declared, b.result = .declared declared →
      ∃ y, bridgeReturn o id declared x0 = .ok y) :
    Agrees out id b guest args x0 leftover ↔
      Straight o args ∧
        ∀ declared, b.result = .declared declared → PlainReturn o x0 leftover declared := by
  obtain ⟨hcount, -, hparams, hresult⟩ := xlBlockSimpleArgs_spec b hsignature
  have hsides : ∀ a ∈ args, Sides a.param.declared := by
    intro a ha
    apply hparams
    rw [← hargs]
    exact List.mem_map_of_mem ha
  have hlength : n = args.length := by
    rw [hcount, ← hargs, List.length_map]
  have hinvoke : xlWrapperInvoke (some b.signature) guest (laid args)
      = some (guest :: (laid args).take args.length) := by
    rw [xlWrapperInvoke, hsignature, hlength]
    rfl
  have hreturn : ∀ declared, b.result = .declared declared →
      (bridgeReturn o id declared x0 = .ok (trampolineResult declared x0 leftover) ↔
        PlainReturn o x0 leftover declared) := by
    intro declared hdeclared
    obtain ⟨y, hy⟩ := hreturns declared hdeclared
    exact blockReturn_iff (hresult declared hdeclared) hown hx0 hleftover hy
  rw [← arguments_iff out hsides]
  constructor
  · rintro ⟨⟨registers, hcall, hsame⟩, hreturned⟩
    rw [hinvoke] at hcall
    injection hcall with hcall
    injection hcall with _ hcall
    rw [hcall]
    exact ⟨hsame, fun declared h => (hreturn declared h).mp (hreturned declared h)⟩
  · rintro ⟨hsame, hplain⟩
    exact ⟨⟨_, hinvoke, hsame⟩, fun declared h => (hreturn declared h).mpr (hplain declared h)⟩

/-! ### A sample -/

def offset (first : Char) (rest : List Char)
    (h : (first :: rest).all Char.isDigit = true) : Offset where
  digits := first :: rest
  nonempty := List.cons_ne_nil _ _
  isDigit := List.all_eq_true.mp h

/-- An object, and an `NSUInteger` behind it. -/
def objectParam : BlockParam where
  declared := .plain (.pointer .object) (.pointer .object)
  isBool := false
  text := ['@']
  offset := offset '8' [] rfl
  spelled := .object
  bool := by rintro ⟨⟩

def indexParam (signed : Bool) (letter : Char) (h : letter ∈ integerLetters .w64 signed) :
    BlockParam where
  declared := .plain (.integer .w64 signed) (.integer .w32 signed)
  isBool := false
  text := [letter]
  offset := offset '1' ['6'] rfl
  spelled := .integer signed h (by decide)
  bool := by rintro ⟨⟩

/-- The type of a block without a result. -/
def procedure (params : List BlockParam) : BlockType where
  result := .void
  text := ['v']
  offset := offset '2' ['4'] rfl
  blockOffset := offset '0' [] rfl
  params := params
  spelled := .void

/-- No block of the host is passed here. -/
def sampleOutward : Outward sampleObjects where
  hostBlockWrap y := if y = 0 then 0 else if y = 4096 then 8192 else 4096
  wrap_zero := rfl
  wrap_own y hy := by
    rw [if_neg hy]
    split_ifs with h
    · rw [h]
      decide
    · exact ⟨by decide, by decide, fun heq => h heq.symm⟩
  objectOut y hy := ⟨(wrap_address hy).2 ▸ inRange_wrap false (by decide) y, Iff.rfl⟩

/-- A turn of the loop over the parameters. -/
theorem countArgs_token {count : Nat} {text rest : List Char} {token : Token}
    (htoken : xlTypeToken text = (token, rest)) (htext : text ≠ [])
    (hargument : token = .integer ∨ token = .pointer) :
    countArgs count text = countArgs (count + 1) (skipDigits rest) := by
  rw [countArgs, if_neg htext, htoken, dif_neg]
  rcases hargument with rfl | rfl <;> rintro (h | h) <;> cases h

/-- A signature whose parameters are counted. -/
theorem xlBlockSimpleArgs_of_count {sig afterResult afterBlock : List Char} {result : Token}
    {n : Nat} (hresult : xlTypeToken sig = (result, afterResult)) (hne : result ≠ .unsupported)
    (hblock : xlTypeToken (skipDigits afterResult) = (.pointer, afterBlock))
    (hcount : countArgs 0 (skipDigits afterBlock) = some n) (hle : n ≤ 4) :
    xlBlockSimpleArgs (some sig) = some n := by
  have hfew : ¬ 4 < n := Nat.not_lt.mpr hle
  simp [xlBlockSimpleArgs, hresult, hne, hblock, hcount, hfew]

theorem sample_signature (signed : Bool) (letter : Char) (h : letter ∈ integerLetters .w64 signed) :
    xlBlockSimpleArgs (some (procedure [objectParam, indexParam signed letter h]).signature)
      = some 2 := by
  have hcount : countArgs 0 ['@', '8', letter, '1', '6'] = some 2 := by
    have hdigit : letter.isDigit = false := not_isDigit_of_mem (mem_integers h) (by decide)
    have hnext : skipDigits ['8', letter, '1', '6'] = [letter, '1', '6'] :=
      (offset '8' [] rfl).skipDigits (by
        intro c more hc
        injection hc with hc
        rw [← hc]
        exact hdigit)
    rw [countArgs_token rfl (List.cons_ne_nil _ _) (.inr rfl)]
    show countArgs 1 (skipDigits ['8', letter, '1', '6']) = some 2
    rw [hnext, countArgs_token (xlTypeToken_integer (mem_integers h)) (List.cons_ne_nil _ _)
      (.inl rfl), countArgs]
    rfl
  exact xlBlockSimpleArgs_of_count rfl (by decide) rfl hcount (by decide)

/-- An object and an index, for a block that returns nothing. -/
theorem trampolines_agree_index : Agrees sampleOutward "block"
    (procedure [objectParam, indexParam false 'Q' (by decide)]) 0x1000
    [⟨objectParam, 0x20000, (show InRange false 32 _ by decide)⟩,
      ⟨indexParam false 'Q' (by decide), 7, (show InRange false 32 _ by decide)⟩] 0 0 := by
  have hown : ∀ x, sampleObjects.xlIsGuestBlock x = true →
      sampleObjects.xlWrapperFor x ≠ x := by
    intro x h
    simp [Objects.xlIsGuestBlock, sampleObjects] at h
  refine (trampolines_agree_iff sampleOutward hown "block"
    (sample_signature false 'Q' (by decide)) 0x1000 rfl (by decide) (by decide) ?_).mpr ⟨?_, ?_⟩
  · rintro declared ⟨⟩
  · refine ⟨rfl, ⟨?_, ?_, ?_, ?_⟩, trivial⟩ <;> decide
  · rintro declared ⟨⟩

/-- An `NSInteger` that is -1: its register has 0xffffffff from the wrapper, and -1 from the
generated block. -/
theorem not_agrees_negative :
    xlBlockSimpleArgs (some (procedure [objectParam, indexParam true 'q' (by decide)]).signature)
      = some 2 ∧
    ¬ Agrees sampleOutward "block" (procedure [objectParam, indexParam true 'q' (by decide)]) 0x1000
      [⟨objectParam, 0x20000, (show InRange false 32 _ by decide)⟩,
        ⟨indexParam true 'q' (by decide), -1, (show InRange true 32 _ by decide)⟩] 0 0 := by
  refine ⟨sample_signature true 'q' (by decide), ?_⟩
  rintro ⟨⟨registers, hcall, hsame⟩, -⟩
  have hinvoke : xlWrapperInvoke
      (some (procedure [objectParam, indexParam true 'q' (by decide)]).signature) 0x1000
      [0x20000, 0xFFFFFFFF] = some [0x1000, 0x20000, 0xFFFFFFFF] := by
    rw [xlWrapperInvoke, sample_signature true 'q' (by decide)]
    rfl
  have hregisters := hinvoke.symm.trans hcall
  injection hregisters with hregisters
  injection hregisters with _ hregisters
  rw [← hregisters] at hsame
  cases hsame with
  | cons _ hrest =>
      cases hrest with
      | cons hindex _ =>
          have hword : wrap false 64 0xFFFFFFFF = wrap false 64 (-1) := hindex
          exact absurd hword (by decide)

end BlockTrampolines

end Katabasis
