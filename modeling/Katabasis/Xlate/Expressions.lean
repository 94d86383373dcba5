import Katabasis.Lib.HeldWords

set_option autoImplicit false

/-! # The expressions of jump tables

`JumpTables::Evaluate` (`xlate/src/xlate.cpp`) computes, for one value of a table's index, what an
expression of the lifted function gives: the address of the entry, the conditions that guard the
load, and the branch target that is made of the loaded entry. It has 64-bit words only, and works
in them on the values of every width: it masks where an operation may overflow, and extends the
sign by hand where one is signed.

`Value` is a value of LLVM IR as far as the code looks at it. An instruction carries a name, which
no other instruction of the function has, so that equal values are the same object. The meaning
(`Frame.llvm`) has the words of each width that the language reference gives; it is `none` where
that is poison, or depends on more than the index and the loaded entry. Flags such as `nsw` make
more results poison, and change no other: they are left out.
-/

namespace Katabasis

open HeldWords

namespace JumpTables

/-! ## Values -/

inductive BinaryOp where
  | add | sub | mul | shl | lshr | ashr | and | or | xor
  /-- A division or a remainder. -/
  | other
  deriving DecidableEq

inductive CastOp where
  | zext | sext | trunc | intToPtr | ptrToInt
  /-- A cast of floating-point values or between address spaces. -/
  | other
  deriving DecidableEq

inductive Predicate where
  | eq | ne | ugt | uge | ult | ule | sgt | sge | slt | sle
  deriving DecidableEq

/-- What one index of a `getelementptr` steps over. -/
inductive Step where
  /-- The elements of an array, or those a pointer points to, by their allocation size. -/
  | array (size : Nat)
  /-- The fields of a struct, by their offsets. -/
  | struct (offsets : List Nat)
  deriving DecidableEq

mutual

inductive Value where
  | constant (bits : Nat) (word : BitVec bits)
  | argument (name bits : Nat)
  | load (name bits : Nat) (pointer : Value)
  | binary (name : Nat) (op : BinaryOp) (a b : Value)
  /-- A cast to a type of so many bits, none for a pointer. -/
  | cast (name : Nat) (op : CastOp) (dest : Nat) (a : Value)
  | icmp (name : Nat) (predicate : Predicate) (a b : Value)
  | select (name : Nat) (cond a b : Value)
  | gep (name : Nat) (pointer : Value) (indices : Indices)
  /-- The constant expression, which is no instruction. -/
  | constantIntToPtr (a : Value)
  /-- Any other value: a phi or a call, or a constant such as a global's address. -/
  | other (name bits : Nat) (instruction : Bool)
  deriving DecidableEq

inductive Indices where
  | nil
  | cons (step : Step) (index : Value) (rest : Indices)
  deriving DecidableEq

end

/-- The size of a value's type, which is 0 for a pointer. -/
def Value.bits : Value → Nat
  | .constant bits _ => bits
  | .argument _ bits => bits
  | .load _ bits _ => bits
  | .binary _ _ a _ => a.bits
  | .cast _ _ dest _ => dest
  | .icmp .. => 1
  | .select _ _ a _ => a.bits
  | .gep .. => 0
  | .constantIntToPtr _ => 0
  | .other _ bits _ => bits

/-- `Strip`: one cast between pointers and integers is looked through. -/
def Value.strip : Value → Value
  | .constantIntToPtr a => a
  | .cast _ .intToPtr _ a => a
  | .cast _ .ptrToInt _ a => a
  | value => value

structure LoadInst where
  name : Nat
  bits : Nat
  pointer : Value
  deriving DecidableEq

def LoadInst.value (load : LoadInst) : Value := .load load.name load.bits load.pointer

/-! ## `Evaluate` -/

/-- The cases of a binary operator, of type `bits`. -/
def evaluateBinary (op : BinaryOp) (bits : Nat) (a b : BitVec 64) : Option (BitVec 64) :=
  match op with
  | .add => some ((a + b) &&& mask 64 bits)
  | .sub => some ((a - b) &&& mask 64 bits)
  | .mul => some ((a * b) &&& mask 64 bits)
  | .shl => some ((a <<< b) &&& mask 64 bits)
  | .lshr => some ((a >>> b) &&& mask 64 bits)
  | .ashr => some ((signExtend a bits).sshiftRight b.toNat &&& mask 64 bits)
  | .and => some (a &&& b)
  | .or => some (a ||| b)
  | .xor => some (a ^^^ b)
  | .other => none

/-- The cases of a comparison of operands of type `bits`. -/
def evaluateCompare (predicate : Predicate) (bits : Nat) (a b : BitVec 64) : Bool :=
  let sa := signExtend a bits
  let sb := signExtend b bits
  let ua := a &&& mask 64 bits
  let ub := b &&& mask 64 bits
  match predicate with
  | .eq => ua == ub
  | .ne => ua != ub
  | .ugt => ub.ult ua
  | .uge => ub.ule ua
  | .ult => ua.ult ub
  | .ule => ua.ule ub
  | .sgt => sb.slt sa
  | .sge => sb.sle sa
  | .slt => sa.slt sb
  | .sle => sa.sle sb

/-- The indices of a `getelementptr`, from the address so far. -/
def evaluateIndices (eval : Value → Option (BitVec 64)) :
    Indices → BitVec 64 → Option (BitVec 64)
  | .nil, address => some address
  | .cons step index rest, address => do
      let idx ← eval index
      match step with
      | .struct offsets =>
          let offset ← offsets[(idx.setWidth 32).toNat]?
          evaluateIndices eval rest (address + BitVec.ofNat 64 offset)
      | .array size =>
          evaluateIndices eval rest
            (address + signExtend idx index.bits * BitVec.ofNat 64 size)

/-- The cases of `Evaluate` by the kind of a value, with the calls on its operands. -/
def evaluateNode (eval : Value → Option (BitVec 64)) : Value → Option (BitVec 64)
  | .constant _ word => some (word.setWidth 64)
  | .gep _ pointer indices => do
      let base ← eval pointer
      evaluateIndices eval indices base
  | .cast _ op dest a => do
      let operand ← eval a
      let maskFrom := mask 64 a.bits
      let maskTo := mask 64 dest
      match op with
      | .sext => some (signExtend (operand &&& maskFrom) a.bits &&& maskTo)
      | _ => some (operand &&& maskFrom &&& maskTo)
  | .binary _ op a b => do
      let x ← eval a
      let y ← eval b
      evaluateBinary op a.bits x y
  | .icmp _ predicate a b => do
      let x ← eval a
      let y ← eval b
      some ((BitVec.ofBool (evaluateCompare predicate a.bits x y)).setWidth 64)
  | .select _ cond a b => do
      let c ← eval cond
      if c ≠ 0 then eval a else eval b
  | _ => none

/-- `Evaluate`, with as many levels left as the source has below its depth limit. -/
def evaluate (index : Value) (indexValue : BitVec 64) (load : Option LoadInst)
    (loaded : Option (BitVec 64)) : Nat → Value → Option (BitVec 64)
  | 0, _ => none
  | levels + 1, value =>
      if value.strip = index then some indexValue
      else if load.any fun l => value.strip = l.value then loaded
      else evaluateNode (evaluate index indexValue load loaded levels) value.strip

/-- The levels of a call with depth 0: a value deeper than 16 is not evaluated. -/
def maxLevels : Nat := 17

/-! ## The meaning in LLVM -/

/-- The result of an operator, `none` where it is poison. -/
def BinaryOp.llvm {w : Nat} (op : BinaryOp) (x y : BitVec w) : Option (BitVec w) :=
  match op with
  | .add => some (x + y)
  | .sub => some (x - y)
  | .mul => some (x * y)
  | .shl => if y.toNat < w then some (x <<< y.toNat) else none
  | .lshr => if y.toNat < w then some (x >>> y.toNat) else none
  | .ashr => if y.toNat < w then some (x.sshiftRight y.toNat) else none
  | .and => some (x &&& y)
  | .or => some (x ||| y)
  | .xor => some (x ^^^ y)
  | .other => none

/-- The operators whose right operand has to be below the width. -/
def BinaryOp.Shifts (op : BinaryOp) : Prop := op = .shl ∨ op = .lshr ∨ op = .ashr

def Predicate.llvm {w : Nat} (predicate : Predicate) (x y : BitVec w) : Bool :=
  match predicate with
  | .eq => x == y
  | .ne => x != y
  | .ugt => y.ult x
  | .uge => y.ule x
  | .ult => x.ult y
  | .ule => x.ule y
  | .sgt => y.slt x
  | .sge => y.sle x
  | .slt => x.slt y
  | .sle => x.sle y

/-- **One entry of a table**: a word for the index, and one for the entry where it is loaded,
each in the range of its width. -/
structure Entry where
  index : Value
  indexValue : BitVec 64
  load : Option LoadInst
  loaded : BitVec 64
  /-- The size of a pointer in the lifted module. -/
  pointerBits : Nat
  index_strip : index.strip = index
  index_bits : 0 < index.bits ∧ index.bits ≤ 64
  indexValue_lt : indexValue.toNat < 2 ^ index.bits
  load_bits : ∀ l ∈ load, 0 < l.bits ∧ l.bits ≤ 64
  loaded_lt : ∀ l ∈ load, loaded.toNat < 2 ^ l.bits
  pointerBits_ge : 32 ≤ pointerBits

namespace Entry

variable (e : Entry)

/-- The word of a value that the entry gives. -/
def known (value : Value) : Option (BitVec 64) :=
  if value = e.index then some e.indexValue
  else if e.load.any fun l => value = l.value then some e.loaded
  else none

mutual

/-- **The value of an expression** at this entry, as a word of `w` bits. -/
def llvm (value : Value) (w : Nat) : Option (BitVec w) :=
  match e.known value with
  | some word => some (word.setWidth w)
  | none =>
      match value with
      | .constant _ word => some (word.setWidth w)
      | .gep _ pointer indices => do
          let base ← llvm pointer w
          llvmIndices indices base
      | .cast _ .zext _ a => do
          let x ← llvm a a.bits
          some (x.setWidth w)
      | .cast _ .sext _ a => do
          let x ← llvm a a.bits
          some (x.signExtend w)
      | .cast _ .trunc _ a => do
          let x ← llvm a a.bits
          some (x.setWidth w)
      | .cast _ .intToPtr _ a => do
          let x ← llvm a a.bits
          some (x.setWidth w)
      | .cast _ .ptrToInt _ a => do
          let x ← llvm a e.pointerBits
          some (x.setWidth w)
      | .constantIntToPtr a => do
          let x ← llvm a a.bits
          some (x.setWidth w)
      | .binary _ op a b => do
          let x ← llvm a w
          let y ← llvm b w
          op.llvm x y
      | .icmp _ predicate a b => do
          let x ← llvm a a.bits
          let y ← llvm b a.bits
          some ((BitVec.ofBool (predicate.llvm x y)).setWidth w)
      | .select _ cond a b => do
          let c ← llvm cond 1
          if c = 1 then llvm a w else llvm b w
      | _ => none

/-- The address that the indices lead to. -/
def llvmIndices {w : Nat} (indices : Indices) (address : BitVec w) : Option (BitVec w) :=
  match indices with
  | .nil => some address
  | .cons (.array size) index rest => do
      let x ← llvm index index.bits
      llvmIndices rest (address + x.signExtend w * BitVec.ofNat w size)
  | .cons (.struct offsets) index rest => do
      let x ← llvm index index.bits
      let offset ← offsets[x.toNat]?
      llvmIndices rest (address + BitVec.ofNat w offset)

end

/-- `Evaluate` at this entry. -/
def evaluate (levels : Nat) (value : Value) : Option (BitVec 64) :=
  JumpTables.evaluate e.index e.indexValue e.load (e.load.map fun _ => e.loaded) levels value

/-- **An expression of `w` bits**: integer operations at widths up to 64 on constants, the index,
the loaded entry and values that are not known, whose shift amounts are below the width. -/
inductive Expression : Value → Nat → Prop
  | index : Expression e.index e.index.bits
  | load {l : LoadInst} : 0 < l.bits → l.bits ≤ 64 → Expression l.value l.bits
  | constant {bits : Nat} (word : BitVec bits) :
      0 < bits → bits ≤ 64 → Expression (.constant bits word) bits
  | argument (name : Nat) {bits : Nat} :
      0 < bits → bits ≤ 64 → Expression (.argument name bits) bits
  | other (name : Nat) {bits : Nat} (instruction : Bool) :
      0 < bits → bits ≤ 64 → Expression (.other name bits instruction) bits
  | binary (name : Nat) {op : BinaryOp} {a b : Value} {w : Nat} :
      Expression a w → Expression b w →
      (op.Shifts → ∀ y, e.llvm b w = some y → y.toNat < w) → Expression (.binary name op a b) w
  | zext (name : Nat) {a : Value} {w dest : Nat} :
      Expression a w → w ≤ dest → dest ≤ 64 → Expression (.cast name .zext dest a) dest
  | sext (name : Nat) {a : Value} {w dest : Nat} :
      Expression a w → w ≤ dest → dest ≤ 64 → Expression (.cast name .sext dest a) dest
  | trunc (name : Nat) {a : Value} {w dest : Nat} :
      Expression a w → 0 < dest → dest ≤ w → Expression (.cast name .trunc dest a) dest
  | icmp (name : Nat) (predicate : Predicate) {a b : Value} {w : Nat} :
      Expression a w → Expression b w → Expression (.icmp name predicate a b) 1
  | select (name : Nat) {cond a b : Value} {w : Nat} :
      Expression cond 1 → Expression a w → Expression b w → Expression (.select name cond a b) w

/-- The indices of a `getelementptr`: expressions, and the fields of a struct by a number of 32
bits. -/
inductive Strides : Indices → Prop
  | nil : Strides .nil
  | array (size : Nat) {index : Value} {rest : Indices} :
      e.Expression index index.bits → Strides rest → Strides (.cons (.array size) index rest)
  | struct (offsets : List Nat) {index : Value} {rest : Indices} :
      e.Expression index 32 → Strides rest → Strides (.cons (.struct offsets) index rest)

/-- An address: a `getelementptr`, or several, from an integer. -/
inductive Address : Value → Prop
  | constant {a : Value} {w : Nat} : e.Expression a w → Address (.constantIntToPtr a)
  | cast (name : Nat) {a : Value} {w : Nat} :
      e.Expression a w → Address (.cast name .intToPtr 0 a)
  | gep (name : Nat) {pointer : Value} {indices : Indices} :
      Address pointer → e.Strides indices → Address (.gep name pointer indices)

end Entry

/-! ## One operation -/

/-- **An operator on held words.** -/
theorem evaluateBinary_held {op : BinaryOp} {w : Nat} (hpos : 0 < w) (hle : w ≤ 64)
    (x y : BitVec w) (hshift : op.Shifts → y.toNat < w) {r : BitVec 64}
    (h : evaluateBinary op w (x.setWidth 64) (y.setWidth 64) = some r) :
    ∃ z, op.llvm x y = some z ∧ r = z.setWidth 64 := by
  cases op with
  | add => exact ⟨_, rfl, (Option.some.inj h).symm.trans (add_held hle x y)⟩
  | sub => exact ⟨_, rfl, (Option.some.inj h).symm.trans (sub_held hle x y)⟩
  | mul => exact ⟨_, rfl, (Option.some.inj h).symm.trans (mul_held hle x y)⟩
  | shl =>
      have hy := hshift (Or.inl rfl)
      exact ⟨_, if_pos hy, (Option.some.inj h).symm.trans (shiftLeft_held hle x y)⟩
  | lshr =>
      have hy := hshift (Or.inr (Or.inl rfl))
      exact ⟨_, if_pos hy, (Option.some.inj h).symm.trans (ushiftRight_held hle x y)⟩
  | ashr =>
      have hy := hshift (Or.inr (Or.inr rfl))
      exact ⟨_, if_pos hy, (Option.some.inj h).symm.trans (sshiftRight_held hle x y hpos)⟩
  | and => exact ⟨_, rfl, (Option.some.inj h).symm.trans BitVec.setWidth_and.symm⟩
  | or => exact ⟨_, rfl, (Option.some.inj h).symm.trans BitVec.setWidth_or.symm⟩
  | xor => exact ⟨_, rfl, (Option.some.inj h).symm.trans BitVec.setWidth_xor.symm⟩
  | other => cases h

/-- **A comparison of held words.** -/
theorem evaluateCompare_held (predicate : Predicate) {w : Nat} (hpos : 0 < w) (hle : w ≤ 64)
    (x y : BitVec w) :
    evaluateCompare predicate w (x.setWidth 64) (y.setWidth 64) = predicate.llvm x y := by
  have heq : (x.setWidth 64 == y.setWidth 64) = (x == y) := by
    rw [Bool.eq_iff_iff, beq_iff_eq, beq_iff_eq, held_inj hle]
  unfold evaluateCompare
  simp only [mask_held hle, signExtend_held hle x hpos, signExtend_held hle y hpos]
  cases predicate <;>
    simp only [Predicate.llvm, bne, heq, BitVec.ule_eq_not_ult, BitVec.sle_eq_not_slt,
      ult_held hle, slt_held hle]

namespace Entry

variable {e : Entry}

theorem Expression.bits {v : Value} {w : Nat} (h : e.Expression v w) :
    v.bits = w ∧ 0 < w ∧ w ≤ 64 := by
  induction h with
  | index => exact ⟨rfl, e.index_bits⟩
  | load hpos hle => exact ⟨rfl, hpos, hle⟩
  | constant word hpos hle => exact ⟨rfl, hpos, hle⟩
  | argument name hpos hle => exact ⟨rfl, hpos, hle⟩
  | other name instruction hpos hle => exact ⟨rfl, hpos, hle⟩
  | binary name ha hb hshift iha ihb => exact ⟨iha.1, iha.2⟩
  | zext name ha hle hdest ih => exact ⟨rfl, by omega, hdest⟩
  | sext name ha hle hdest ih => exact ⟨rfl, by omega, hdest⟩
  | trunc name ha hpos hle ih => exact ⟨rfl, hpos, by omega⟩
  | icmp name predicate ha hb iha ihb => exact ⟨rfl, by omega, by omega⟩
  | select name hc ha hb ihc iha ihb => exact ⟨iha.1, iha.2⟩

/-- An expression is no cast of a pointer. -/
theorem Expression.strip {v : Value} {w : Nat} (h : e.Expression v w) : v.strip = v := by
  cases h with
  | index => exact e.index_strip
  | _ => rfl

theorem load_of_any {v : Value} (h : (e.load.any fun l => v = l.value) = true) :
    ∃ l ∈ e.load, v = l.value := by
  cases hload : e.load with
  | none =>
      rw [hload] at h
      cases h
  | some l =>
      rw [hload] at h
      exact ⟨l, rfl, of_decide_eq_true h⟩

/-- **A word that the entry gives is in its range.** -/
theorem known_lt {v : Value} {word : BitVec 64} (h : e.known v = some word) :
    word.toNat < 2 ^ v.bits := by
  unfold known at h
  split at h
  case isTrue heq =>
      injection h with h
      rw [← h, heq]
      exact e.indexValue_lt
  case isFalse =>
      split at h
      case isFalse => cases h
      case isTrue hload =>
          injection h with h
          obtain ⟨l, hl, rfl⟩ := load_of_any hload
          rw [← h]
          exact e.loaded_lt l hl

theorem evaluate_succ (levels : Nat) (v : Value) :
    e.evaluate (levels + 1) v
      = (e.known v.strip).or (evaluateNode (e.evaluate levels) v.strip) := by
  rw [evaluate, JumpTables.evaluate, known]
  split
  case isTrue => rfl
  case isFalse =>
      split
      case isFalse => rfl
      case isTrue hload =>
          obtain ⟨l, hl, -⟩ := load_of_any hload
          rw [Option.mem_def.mp hl]
          rfl

/-- Where the entry gives no word, the meaning goes by the kind of the value. -/
theorem llvm_known {v : Value} {word : BitVec 64} (h : e.known v = some word) (w : Nat) :
    e.llvm v w = some (word.setWidth w) := by
  rw [llvm.eq_def, h]

/-- What evaluation finds for a value is its meaning, held zero-extended. -/
def Held (e : Entry) (v : Value) (w : Nat) : Prop :=
  ∀ (levels : Nat) (r : BitVec 64), e.evaluate levels v = some r →
    ∃ x, e.llvm v w = some x ∧ r = x.setWidth 64

/-- Where the entry gives the word of an expression, it is the meaning. -/
theorem held_of_node {v : Value} {w : Nat} (h : e.Expression v w)
    (hnode : e.known v = none → ∀ levels r, evaluateNode (e.evaluate levels) v = some r →
      ∃ x, e.llvm v w = some x ∧ r = x.setWidth 64) : e.Held v w := by
  intro levels r hr
  obtain ⟨hbits, -, hle⟩ := h.bits
  cases levels with
  | zero => cases hr
  | succ levels =>
      rw [evaluate_succ, h.strip] at hr
      cases hknown : e.known v with
      | none =>
          rw [hknown, Option.none_or] at hr
          exact hnode hknown levels r hr
      | some word =>
          rw [hknown, Option.some_or] at hr
          injection hr with hr
          have hlt := known_lt hknown
          rw [hbits] at hlt
          refine ⟨_, llvm_known hknown w, ?_⟩
          apply BitVec.eq_of_toNat_eq
          rw [toNat_held hle, BitVec.toNat_setWidth, Nat.mod_eq_of_lt hlt, hr]

theorem Held.binary {name : Nat} {op : BinaryOp} {a b : Value} {w : Nat} (ha : e.Held a w)
    (hb : e.Held b w) (h : e.Expression (.binary name op a b) w)
    (hshift : op.Shifts → ∀ y, e.llvm b w = some y → y.toNat < w) :
    e.Held (.binary name op a b) w := by
  obtain ⟨hbits, hpos, hle⟩ := h.bits
  refine held_of_node h fun hknown levels r hr => ?_
  obtain ⟨x', hx', hr⟩ := Option.bind_eq_some_iff.mp hr
  obtain ⟨y', hy', hr⟩ := Option.bind_eq_some_iff.mp hr
  obtain ⟨x, hx, rfl⟩ := ha levels x' hx'
  obtain ⟨y, hy, rfl⟩ := hb levels y' hy'
  have ha_bits : a.bits = w := hbits
  rw [ha_bits] at hr
  obtain ⟨z, hz, rfl⟩ := evaluateBinary_held hpos hle x y (fun hop => hshift hop y hy) hr
  refine ⟨z, ?_, rfl⟩
  rw [llvm.eq_def, hknown]
  simp only [hx, hy, hz, Option.bind_eq_bind, Option.bind_some]

theorem Held.zext {name : Nat} {a : Value} {dest : Nat} (ha : e.Held a a.bits)
    (hle : a.bits ≤ dest) (hdest : dest ≤ 64) (h : e.Expression (.cast name .zext dest a) dest) :
    e.Held (.cast name .zext dest a) dest := by
  refine held_of_node h fun hknown levels r hr => ?_
  obtain ⟨x', hx', hr⟩ := Option.bind_eq_some_iff.mp hr
  obtain ⟨x, hx, rfl⟩ := ha levels x' hx'
  refine ⟨x.setWidth dest, ?_, ?_⟩
  · rw [llvm.eq_def, hknown]
    simp only [hx, Option.bind_eq_bind, Option.bind_some]
  · have hword : x.setWidth 64 &&& mask 64 a.bits &&& mask 64 dest = r := Option.some.inj hr
    rw [← hword, mask_held (hle.trans hdest), and_mask, BitVec.setWidth_setWidth_of_le x hdest]

theorem Held.sext {name : Nat} {a : Value} {dest : Nat} (ha : e.Held a a.bits)
    (hpos : 0 < a.bits) (hle : a.bits ≤ dest) (hdest : dest ≤ 64)
    (h : e.Expression (.cast name .sext dest a) dest) : e.Held (.cast name .sext dest a) dest := by
  refine held_of_node h fun hknown levels r hr => ?_
  obtain ⟨x', hx', hr⟩ := Option.bind_eq_some_iff.mp hr
  obtain ⟨x, hx, rfl⟩ := ha levels x' hx'
  have hw : a.bits ≤ 64 := hle.trans hdest
  refine ⟨x.signExtend dest, ?_, ?_⟩
  · rw [llvm.eq_def, hknown]
    simp only [hx, Option.bind_eq_bind, Option.bind_some]
  · have hword : signExtend (x.setWidth 64 &&& mask 64 a.bits) a.bits &&& mask 64 dest = r :=
      Option.some.inj hr
    rw [← hword, mask_held hw, signExtend_held hw x hpos, and_mask, setWidth_signExtend hdest]

theorem Held.trunc {name : Nat} {a : Value} {dest : Nat} (ha : e.Held a a.bits)
    (hw : a.bits ≤ 64) (hle : dest ≤ a.bits) (h : e.Expression (.cast name .trunc dest a) dest) :
    e.Held (.cast name .trunc dest a) dest := by
  refine held_of_node h fun hknown levels r hr => ?_
  obtain ⟨x', hx', hr⟩ := Option.bind_eq_some_iff.mp hr
  obtain ⟨x, hx, rfl⟩ := ha levels x' hx'
  refine ⟨x.setWidth dest, ?_, ?_⟩
  · rw [llvm.eq_def, hknown]
    simp only [hx, Option.bind_eq_bind, Option.bind_some]
  · have hword : x.setWidth 64 &&& mask 64 a.bits &&& mask 64 dest = r := Option.some.inj hr
    rw [← hword, mask_held hw, and_mask, BitVec.setWidth_setWidth_of_le x (hle.trans hw)]

theorem Held.icmp {name : Nat} {predicate : Predicate} {a b : Value} (ha : e.Held a a.bits)
    (hb : e.Held b a.bits) (hpos : 0 < a.bits) (hw : a.bits ≤ 64)
    (h : e.Expression (.icmp name predicate a b) 1) : e.Held (.icmp name predicate a b) 1 := by
  refine held_of_node h fun hknown levels r hr => ?_
  obtain ⟨x', hx', hr⟩ := Option.bind_eq_some_iff.mp hr
  obtain ⟨y', hy', hr⟩ := Option.bind_eq_some_iff.mp hr
  obtain ⟨x, hx, rfl⟩ := ha levels x' hx'
  obtain ⟨y, hy, rfl⟩ := hb levels y' hy'
  refine ⟨(BitVec.ofBool (predicate.llvm x y)).setWidth 1, ?_, ?_⟩
  · rw [llvm.eq_def, hknown]
    simp only [hx, hy, Option.bind_eq_bind, Option.bind_some]
  · rw [← Option.some.inj hr, evaluateCompare_held predicate hpos hw, BitVec.setWidth_eq]

theorem held_ne_zero (c : BitVec 1) : c.setWidth 64 ≠ 0#64 ↔ c = 1 := by
  revert c
  decide

theorem Held.select {name : Nat} {cond a b : Value} {w : Nat} (hc : e.Held cond 1)
    (ha : e.Held a w) (hb : e.Held b w) (h : e.Expression (.select name cond a b) w) :
    e.Held (.select name cond a b) w := by
  refine held_of_node h fun hknown levels r hr => ?_
  obtain ⟨c', hc', hr⟩ := Option.bind_eq_some_iff.mp hr
  obtain ⟨c, hc, rfl⟩ := hc levels c' hc'
  -- the branch that is taken, and no other
  have hmeaning : e.llvm (.select name cond a b) w
      = if c = 1 then e.llvm a w else e.llvm b w := by
    rw [llvm.eq_def, hknown]
    simp only [hc, Option.bind_eq_bind, Option.bind_some]
  rw [hmeaning]
  have hr' : (if c.setWidth 64 ≠ 0#64 then e.evaluate levels a else e.evaluate levels b) = some r :=
    hr
  by_cases htaken : c = 1
  · rw [if_pos ((held_ne_zero c).mpr htaken)] at hr'
    rw [if_pos htaken]
    exact ha levels r hr'
  · rw [if_neg (fun hne => htaken ((held_ne_zero c).mp hne))] at hr'
    rw [if_neg htaken]
    exact hb levels r hr'

/-- **Evaluation of an expression is sound.** -/
theorem Expression.held {v : Value} {w : Nat} (h : e.Expression v w) : e.Held v w := by
  induction h with
  | index =>
      -- `known` answers for the index before `evaluate` looks at the node
      refine held_of_node .index fun hknown => ?_
      rw [known, if_pos rfl] at hknown
      cases hknown
  | load hpos hle => exact held_of_node (.load hpos hle) fun _ _ _ hr => nomatch hr
  | argument name hpos hle =>
      exact held_of_node (.argument name hpos hle) fun _ _ _ hr => nomatch hr
  | other name instruction hpos hle =>
      exact held_of_node (.other name instruction hpos hle) fun _ _ _ hr => nomatch hr
  | constant word hpos hle =>
      refine held_of_node (.constant word hpos hle) fun hknown levels r hr => ?_
      refine ⟨word, ?_, (Option.some.inj hr).symm⟩
      rw [llvm.eq_def, hknown]
      simp only [BitVec.setWidth_eq]
  | binary name ha hb hshift iha ihb => exact iha.binary ihb (.binary name ha hb hshift) hshift
  | zext name ha hle hdest ih =>
      obtain ⟨rfl, -⟩ := ha.bits
      exact ih.zext hle hdest (.zext name ha hle hdest)
  | sext name ha hle hdest ih =>
      obtain ⟨rfl, hpos, -⟩ := ha.bits
      exact ih.sext hpos hle hdest (.sext name ha hle hdest)
  | trunc name ha hpos hle ih =>
      obtain ⟨rfl, -, hw⟩ := ha.bits
      exact ih.trunc hw hle (.trunc name ha hpos hle)
  | icmp name predicate ha hb iha ihb =>
      obtain ⟨rfl, hpos, hw⟩ := ha.bits
      exact iha.icmp ihb hpos hw (.icmp name predicate ha hb)
  | select name hc ha hb ihc iha ihb => exact ihc.select iha ihb (.select name hc ha hb)

/-! ## Addresses -/

/-- Two words agree modulo 2^32. -/
def Congruent {n m : Nat} (x : BitVec n) (y : BitVec m) : Prop := x.setWidth 32 = y.setWidth 32

theorem Congruent.add {n m : Nat} (hn : 32 ≤ n) (hm : 32 ≤ m) {x x' : BitVec n} {y y' : BitVec m}
    (h : Congruent x y) (h' : Congruent x' y') : Congruent (x + x') (y + y') := by
  rw [Congruent, BitVec.setWidth_add _ _ hn, BitVec.setWidth_add _ _ hm, h, h']

theorem Congruent.mul {n m : Nat} (hn : 32 ≤ n) (hm : 32 ≤ m) {x x' : BitVec n} {y y' : BitVec m}
    (h : Congruent x y) (h' : Congruent x' y') : Congruent (x * x') (y * y') := by
  rw [Congruent, BitVec.setWidth_mul _ _ hn, BitVec.setWidth_mul _ _ hm, h, h']

theorem congruent_ofNat {n m : Nat} (hn : 32 ≤ n) (hm : 32 ≤ m) (k : Nat) :
    Congruent (BitVec.ofNat n k) (BitVec.ofNat m k) := by
  rw [Congruent, BitVec.setWidth_ofNat_of_le hn, BitVec.setWidth_ofNat_of_le hm]

theorem congruent_setWidth {n m w : Nat} (hn : 32 ≤ n) (hm : 32 ≤ m) (x : BitVec w) :
    Congruent (x.setWidth n) (x.setWidth m) := by
  rw [Congruent, BitVec.setWidth_setWidth_of_le x hn, BitVec.setWidth_setWidth_of_le x hm]

theorem congruent_signExtend {n m w : Nat} (hn : 32 ≤ n) (hm : 32 ≤ m) (x : BitVec w) :
    Congruent (x.signExtend n) (x.signExtend m) := by
  rw [Congruent, setWidth_signExtend hn, setWidth_signExtend hm]

/-- A pointer is neither the index nor the loaded entry. -/
theorem known_of_pointer {v : Value} (h : v.bits = 0) : e.known v = none := by
  have hindex : v ≠ e.index := by
    rintro rfl
    have hpos := e.index_bits.1
    omega
  have hload : ¬ (e.load.any fun l => v = l.value) = true := by
    intro hany
    obtain ⟨l, hl, rfl⟩ := load_of_any hany
    have hpos := (e.load_bits l hl).1
    have hbits : l.bits = 0 := h
    omega
  rw [known, if_neg hindex, if_neg hload]

/-- **The indices lead to the same place**, modulo 2^32. -/
theorem Strides.congruent {indices : Indices} (h : e.Strides indices) {levels : Nat} :
    ∀ {address : BitVec 64} {base : BitVec e.pointerBits}, Congruent address base →
      ∀ {r : BitVec 64}, evaluateIndices (e.evaluate levels) indices address = some r →
        ∃ x, e.llvmIndices indices base = some x ∧ Congruent r x := by
  have hp := e.pointerBits_ge
  induction h with
  | nil =>
      intro address base hbase r hr
      rw [evaluateIndices, Option.some.injEq] at hr
      subst hr
      exact ⟨base, by rw [llvmIndices], hbase⟩
  | array size hindex hrest ih =>
      intro address base hbase r hr
      obtain ⟨-, hpos, hle⟩ := hindex.bits
      obtain ⟨i', hi', hr⟩ := Option.bind_eq_some_iff.mp hr
      obtain ⟨i, hi, rfl⟩ := hindex.held levels i' hi'
      rw [signExtend_held hle i hpos] at hr
      -- the index is signed on both sides, so its stride agrees in the lower 32 bits
      have hstep : Congruent (i.signExtend 64 * BitVec.ofNat 64 size)
          (i.signExtend e.pointerBits * BitVec.ofNat e.pointerBits size) :=
        (congruent_signExtend (by omega) hp i).mul (by omega) hp
          (congruent_ofNat (by omega) hp size)
      obtain ⟨x, hx, hsame⟩ := ih (hbase.add (by omega) hp hstep) hr
      refine ⟨x, ?_, hsame⟩
      rw [llvmIndices]
      simp only [hi, Option.bind_eq_bind, Option.bind_some, hx]
  | @struct offsets index rest hindex hrest ih =>
      intro address base hbase r hr
      obtain ⟨hbits, -, -⟩ := hindex.bits
      obtain ⟨i', hi', hr⟩ := Option.bind_eq_some_iff.mp hr
      obtain ⟨i, hi, rfl⟩ := hindex.held levels i' hi'
      obtain ⟨offset, hoffset, hr⟩ := Option.bind_eq_some_iff.mp hr
      rw [setWidth_held (by omega)] at hoffset
      obtain ⟨x, hx, hsame⟩ := ih (hbase.add (by omega) hp (congruent_ofNat (by omega) hp offset)) hr
      refine ⟨x, ?_, hsame⟩
      rw [llvmIndices, hbits]
      simp only [hi, hoffset, Option.bind_eq_bind, Option.bind_some, hx]

/-- A pointer made of an integer expression. -/
theorem Expression.congruent_pointer {v a : Value} {w : Nat} (ha : e.Expression a w)
    (hstrip : v.strip = a)
    (hmeaning : ∀ x, e.llvm a a.bits = some x →
      e.llvm v e.pointerBits = some (x.setWidth e.pointerBits))
    (levels : Nat) (r : BitVec 64) (hr : e.evaluate levels v = some r) :
    ∃ x, e.llvm v e.pointerBits = some x ∧ Congruent r x := by
  -- the cast is looked through, on the same level
  have hsame : e.evaluate levels v = e.evaluate levels a := by
    cases levels with
    | zero => rfl
    | succ levels => rw [evaluate_succ, evaluate_succ, hstrip, ha.strip]
  obtain ⟨rfl, -⟩ := ha.bits
  rw [hsame] at hr
  obtain ⟨x, hx, rfl⟩ := ha.held levels r hr
  exact ⟨_, hmeaning x hx, congruent_setWidth (by omega) e.pointerBits_ge x⟩

/-- **Evaluation of an address is sound**, modulo 2^32. -/
theorem Address.congruent {v : Value} (h : e.Address v) :
    ∀ (levels : Nat) (r : BitVec 64), e.evaluate levels v = some r →
      ∃ x, e.llvm v e.pointerBits = some x ∧ Congruent r x := by
  induction h with
  | constant ha =>
      refine ha.congruent_pointer rfl fun x hx => ?_
      rw [llvm.eq_def, known_of_pointer rfl]
      simp only [hx, Option.bind_eq_bind, Option.bind_some]
  | cast name ha =>
      refine ha.congruent_pointer rfl fun x hx => ?_
      rw [llvm.eq_def, known_of_pointer rfl]
      simp only [hx, Option.bind_eq_bind, Option.bind_some]
  | gep name hpointer hindices ih =>
      intro levels r hr
      cases levels with
      | zero => cases hr
      | succ levels =>
          rw [evaluate_succ] at hr
          simp only [Value.strip, known_of_pointer (e := e) (v := .gep ..) rfl, Option.none_or] at hr
          obtain ⟨base', hbase', hr⟩ := Option.bind_eq_some_iff.mp hr
          obtain ⟨base, hbase, hsame⟩ := ih levels base' hbase'
          obtain ⟨x, hx, hcongruent⟩ := hindices.congruent hsame hr
          refine ⟨x, ?_, hcongruent⟩
          rw [llvm.eq_def, known_of_pointer rfl]
          simp only [hbase, Option.bind_eq_bind, Option.bind_some, hx]

end Entry

/-- **`Evaluate` is sound.** What it finds for an expression is the expression's value,
zero-extended; what it finds for a `getelementptr` is the address, modulo 2^32. -/
theorem evaluate_sound (e : Entry) (levels : Nat) :
    (∀ v w r, e.Expression v w → e.evaluate levels v = some r →
      r.toNat < 2 ^ w ∧ ∃ x, e.llvm v w = some x ∧ r = x.setWidth 64) ∧
    ∀ v r, e.Address v → e.evaluate levels v = some r →
      ∃ x, e.llvm v e.pointerBits = some x ∧ r.setWidth 32 = x.setWidth 32 := by
  refine ⟨fun v w r hv hr => ?_, fun v r hv hr => hv.congruent levels r hr⟩
  obtain ⟨-, -, hle⟩ := hv.bits
  obtain ⟨x, hx, rfl⟩ := hv.held levels r hr
  rw [toNat_held hle]
  exact ⟨x.isLt, x, hx, rfl⟩

/-- The fourth entry of a table of bytes at `0x4000`: `0xf0`. -/
def byteEntry : Entry where
  index := .argument 0 32
  indexValue := 3
  load := some ⟨1, 8, .argument 2 0⟩
  loaded := 0xf0
  pointerBits := 64
  index_strip := rfl
  index_bits := by decide
  indexValue_lt := by decide
  load_bits := by
    rintro l ⟨⟩
    decide
  loaded_lt := by
    rintro l ⟨⟩
    decide
  pointerBits_ge := by decide

/-- `0x5000 + (sext(entry) << 2)` -/
def byteTarget : Value :=
  .binary 3 .add (.constant 32 0x5000)
    (.binary 4 .shl (.cast 5 .sext 32 (.load 1 8 (.argument 2 0))) (.constant 32 2))

/-- `getelementptr i8, inttoptr 0x4000, index` -/
def byteAddress : Value :=
  .gep 6 (.constantIntToPtr (.constant 32 0x4000)) (.cons (.array 1) (.argument 0 32) .nil)

theorem evaluate_sound_byte :
    (∃ x, byteEntry.llvm byteTarget 32 = some x ∧ 0x4fc0#64 = x.setWidth 64) ∧
      ∃ x, byteEntry.llvm byteAddress 64 = some x ∧ 0x4003#32 = x.setWidth 32 := by
  have hload : byteEntry.Expression (.load 1 8 (.argument 2 0)) 8 :=
    .load (l := ⟨1, 8, .argument 2 0⟩) (by decide) (by decide)
  have htarget : byteEntry.Expression byteTarget 32 := by
    refine .binary 3 (.constant _ (by decide) (by decide)) (.binary 4
      (.sext 5 hload (by decide) (by decide)) (.constant _ (by decide) (by decide)) ?_) ?_
    · rintro - y hy
      rw [← Option.some.inj hy]
      decide
    · rintro (h | h | h) <;> cases h
  have haddress : byteEntry.Address byteAddress :=
    .gep 6 (.constant (.constant _ (by decide) (by decide))) (.array 1 .index .nil)
  obtain ⟨hexpression, hpointer⟩ := evaluate_sound byteEntry maxLevels
  exact ⟨(hexpression byteTarget 32 0x4fc0 htarget (by decide)).2,
    hpointer byteAddress 0x4003 haddress (by decide)⟩

end JumpTables

end Katabasis
