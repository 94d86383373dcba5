import Mathlib.Tactic

set_option autoImplicit false

/-! # Bind opcodes

The streams of `LC_DYLD_INFO` that tell dyld what to bind, in a 32-bit Mach-O. An opcode is a byte
with four bits of operation and four bits of an operand; behind it there is nothing more, or one or
two numbers in LEB128, or a symbol name that ends with a zero byte. The bind and the weak-bind
stream end with an opcode of zero, and each entry of the lazy-bind stream does; the padding behind
is zeros again.

`decode` reads a stream. What it gives holds the bytes of each number and name, so that two streams
which decode to the same are the same (`encode_of_decode`).
-/

namespace Katabasis.BindOpcodes

abbrev Bytes := List UInt8

theorem toNat_byte {k : Nat} (h : k < 256) : (UInt8.ofNat k).toNat = k :=
  UInt8.toNat_ofNat_of_lt' h

/-! ## Numbers and names -/

/-- A number in LEB128, as it is written: seven bits a byte, the lowest first. -/
inductive Leb where
  | last (bits : Fin 128)
  | more (bits : Fin 128) (rest : Leb)
  deriving DecidableEq

namespace Leb

def bytes : Leb → Bytes
  | last bits => [UInt8.ofNat bits]
  | more bits rest => UInt8.ofNat (bits + 128) :: rest.bytes

/-- The unsigned number. -/
def value : Leb → Nat
  | last bits => bits
  | more bits rest => bits + 128 * rest.value

def parse : Bytes → Option (Leb × Bytes)
  | [] => none
  | b :: data =>
      if h : b.toNat < 128 then some (last ⟨b.toNat, h⟩, data)
      else do
        let (number, data) ← parse data
        some (more ⟨b.toNat - 128, by have := b.toNat_lt; omega⟩ number, data)

theorem parse_bytes (number : Leb) (rest : Bytes) :
    parse (number.bytes ++ rest) = some (number, rest) := by
  induction number with
  | last bits =>
      have hbits := bits.isLt
      have hbyte : (UInt8.ofNat bits).toNat = bits := toNat_byte (by omega)
      rw [bytes, List.singleton_append, parse, dif_pos (by omega)]
      simp only [hbyte]
  | more bits number ih =>
      have hbits := bits.isLt
      have hbyte : (UInt8.ofNat (bits + 128)).toNat = bits + 128 := toNat_byte (by omega)
      rw [bytes, List.cons_append, parse, dif_neg (by omega), ih]
      simp only [hbyte, Option.bind_eq_bind, Option.bind_some, Nat.add_sub_cancel]

theorem of_parse {data rest : Bytes} {number : Leb} (h : parse data = some (number, rest)) :
    data = number.bytes ++ rest := by
  induction data generalizing number with
  | nil => cases h
  | cons b data ih =>
      rw [parse] at h
      split at h
      case isTrue hlt =>
          cases h
          rw [bytes, List.singleton_append, UInt8.ofNat_toNat]
      case isFalse hge =>
          obtain ⟨⟨number', rest'⟩, hparse, hsome⟩ := Option.bind_eq_some_iff.mp h
          cases hsome
          rw [bytes, List.cons_append, ← ih hparse, Nat.sub_add_cancel (by omega),
            UInt8.ofNat_toNat]

end Leb

/-- A symbol name. -/
structure Name where
  bytes : Bytes
  nonzero : 0 ∉ bytes
  deriving DecidableEq

namespace Name

/-- The name up to the zero byte. -/
def parse : Bytes → Option (Name × Bytes)
  | [] => none
  | b :: data =>
      if h : b = 0 then some (⟨[], List.not_mem_nil⟩, data)
      else do
        let (name, data) ← parse data
        some (⟨b :: name.bytes, fun hmem =>
          (List.mem_cons.mp hmem).elim (fun heq => h heq.symm) name.nonzero⟩, data)

theorem parse_bytes (name : Name) (rest : Bytes) :
    parse (name.bytes ++ 0 :: rest) = some (name, rest) := by
  obtain ⟨bytes, nonzero⟩ := name
  induction bytes with
  | nil => rfl
  | cons b bytes ih =>
      have hb : b ≠ 0 := fun heq => nonzero (heq ▸ List.mem_cons_self)
      have hrest := ih fun hmem => nonzero (List.mem_cons_of_mem b hmem)
      rw [List.cons_append, parse, dif_neg hb]
      simp only at hrest
      rw [hrest]
      rfl

theorem of_parse {data rest : Bytes} {name : Name} (h : parse data = some (name, rest)) :
    data = name.bytes ++ 0 :: rest := by
  induction data generalizing name with
  | nil => cases h
  | cons b data ih =>
      rw [parse] at h
      split at h
      case isTrue hzero =>
          cases h
          rw [hzero, List.nil_append]
      case isFalse hne =>
          obtain ⟨⟨name', rest'⟩, hparse, hsome⟩ := Option.bind_eq_some_iff.mp h
          cases hsome
          rw [List.cons_append, ← ih hparse]

end Name

/-! ## Opcodes -/

/-- The opcodes with nothing behind them. -/
inductive PlainOp where
  | done | setDylibOrdinalImm | setDylibSpecialImm | setTypeImm | doBind | doBindAddAddrImmScaled
  deriving DecidableEq

/-- The opcodes with a number behind them. -/
inductive LebOp where
  | setDylibOrdinalUleb | setAddendSleb | setSegmentAndOffsetUleb | addAddrUleb
  | doBindAddAddrUleb
  deriving DecidableEq

/-- An opcode of the stream, with its four bits and what is behind it. -/
inductive Item where
  | plain (op : PlainOp) (imm : Fin 16)
  | leb (op : LebOp) (imm : Fin 16) (operand : Leb)
  | doBindUlebTimesSkippingUleb (imm : Fin 16) (times skip : Leb)
  | setSymbolTrailingFlagsImm (flags : Fin 16) (name : Name)
  deriving DecidableEq

def PlainOp.code : PlainOp → Fin 16
  | done => 0
  | setDylibOrdinalImm => 1
  | setDylibSpecialImm => 3
  | setTypeImm => 5
  | doBind => 9
  | doBindAddAddrImmScaled => 11

def LebOp.code : LebOp → Fin 16
  | setDylibOrdinalUleb => 2
  | setAddendSleb => 6
  | setSegmentAndOffsetUleb => 7
  | addAddrUleb => 8
  | doBindAddAddrUleb => 10

def PlainOp.ofCode : Nat → Option PlainOp
  | 0 => some done
  | 1 => some setDylibOrdinalImm
  | 3 => some setDylibSpecialImm
  | 5 => some setTypeImm
  | 9 => some doBind
  | 11 => some doBindAddAddrImmScaled
  | _ => none

def LebOp.ofCode : Nat → Option LebOp
  | 2 => some setDylibOrdinalUleb
  | 6 => some setAddendSleb
  | 7 => some setSegmentAndOffsetUleb
  | 8 => some addAddrUleb
  | 10 => some doBindAddAddrUleb
  | _ => none

/-- `BIND_SYMBOL_FLAGS_WEAK_IMPORT`, in the four bits of an operation. -/
def weakFlag : Fin 16 := 1

/-- An operation and its four bits in a byte. -/
def opcodeByte (code imm : Fin 16) : UInt8 := UInt8.ofNat (16 * code + imm)

namespace Item

def opcode : Item → UInt8
  | plain op imm => opcodeByte op.code imm
  | leb op imm _ => opcodeByte op.code imm
  | doBindUlebTimesSkippingUleb imm _ _ => opcodeByte 12 imm
  | setSymbolTrailingFlagsImm flags _ => opcodeByte 4 flags

def operands : Item → Bytes
  | plain _ _ => []
  | leb _ _ operand => operand.bytes
  | doBindUlebTimesSkippingUleb _ times skip => times.bytes ++ skip.bytes
  | setSymbolTrailingFlagsImm _ name => name.bytes ++ [0]

def encode (item : Item) : Bytes := item.opcode :: item.operands

/-- The opcode at the front. -/
def decode : Bytes → Option (Item × Bytes)
  | [] => none
  | b :: data =>
      let code := b.toNat / 16
      let imm : Fin 16 := ⟨b.toNat % 16, Nat.mod_lt _ (by decide)⟩
      if code = 4 then do
        let (name, data) ← Name.parse data
        some (setSymbolTrailingFlagsImm imm name, data)
      else if code = 12 then do
        let (times, data) ← Leb.parse data
        let (skip, data) ← Leb.parse data
        some (doBindUlebTimesSkippingUleb imm times skip, data)
      else
        match PlainOp.ofCode code with
        | some op => some (plain op imm, data)
        | none => do
            let op ← LebOp.ofCode code
            let (operand, data) ← Leb.parse data
            some (leb op imm operand, data)

end Item

theorem toNat_opcodeByte (code imm : Fin 16) : (opcodeByte code imm).toNat = 16 * code + imm :=
  toNat_byte (by omega)

theorem opcodeByte_div (code imm : Fin 16) : (opcodeByte code imm).toNat / 16 = code := by
  rw [toNat_opcodeByte]
  omega

theorem opcodeByte_mod (code imm : Fin 16) : (opcodeByte code imm).toNat % 16 = imm := by
  rw [toNat_opcodeByte]
  omega

theorem opcodeByte_toNat (b : UInt8) {code : Fin 16} (h : b.toNat / 16 = code) :
    opcodeByte code ⟨b.toNat % 16, Nat.mod_lt _ (by decide)⟩ = b := by
  rw [← UInt8.toNat_inj, toNat_opcodeByte, ← h]
  exact Nat.div_add_mod b.toNat 16

theorem PlainOp.ofCode_code (op : PlainOp) : PlainOp.ofCode op.code = some op := by
  cases op <;> rfl

theorem LebOp.ofCode_code (op : LebOp) :
    PlainOp.ofCode op.code = none ∧ LebOp.ofCode op.code = some op := by
  cases op <;> exact ⟨rfl, rfl⟩

theorem PlainOp.code_ne (op : PlainOp) : (op.code : Nat) ≠ 4 ∧ (op.code : Nat) ≠ 12 := by
  cases op <;> decide

theorem LebOp.code_ne (op : LebOp) : (op.code : Nat) ≠ 4 ∧ (op.code : Nat) ≠ 12 := by
  cases op <;> decide

theorem PlainOp.of_ofCode {code : Nat} {op : PlainOp} (h : PlainOp.ofCode code = some op) :
    code = op.code := by
  unfold PlainOp.ofCode at h
  split at h <;> cases h <;> rfl

theorem LebOp.of_ofCode {code : Nat} {op : LebOp} (h : LebOp.ofCode code = some op) :
    code = op.code := by
  unfold LebOp.ofCode at h
  split at h <;> cases h <;> rfl

namespace Item

/-- **An opcode is read back.** -/
theorem decode_encode (item : Item) (rest : Bytes) :
    decode (item.encode ++ rest) = some (item, rest) := by
  rw [encode, List.cons_append, decode]
  cases item with
  | plain op imm =>
      simp only [opcode, opcodeByte_div, opcodeByte_mod, operands, List.nil_append]
      rw [if_neg op.code_ne.1, if_neg op.code_ne.2, op.ofCode_code]
  | leb op imm operand =>
      simp only [opcode, opcodeByte_div, opcodeByte_mod, operands]
      rw [if_neg op.code_ne.1, if_neg op.code_ne.2, op.ofCode_code.1, op.ofCode_code.2]
      simp only [Leb.parse_bytes, Option.bind_eq_bind, Option.bind_some]
  | doBindUlebTimesSkippingUleb imm times skip =>
      simp only [opcode, opcodeByte_div, opcodeByte_mod, operands, List.append_assoc]
      rw [if_neg (by decide), if_pos (by decide)]
      simp only [Leb.parse_bytes, Option.bind_eq_bind, Option.bind_some]
  | setSymbolTrailingFlagsImm flags name =>
      simp only [opcode, opcodeByte_div, opcodeByte_mod, operands, List.append_assoc,
        List.singleton_append]
      rw [if_pos (by decide)]
      simp only [Name.parse_bytes, Option.bind_eq_bind, Option.bind_some]

/-- **What is read is what is written.** -/
theorem of_decode {data rest : Bytes} {item : Item} (h : decode data = some (item, rest)) :
    data = item.encode ++ rest := by
  cases data with
  | nil => cases h
  | cons b data =>
      rw [decode] at h
      split at h
      case isTrue hcode =>
          obtain ⟨⟨name, rest'⟩, hname, hsome⟩ := Option.bind_eq_some_iff.mp h
          cases hsome
          rw [encode, opcode, operands, opcodeByte_toNat b hcode, Name.of_parse hname]
          simp
      case isFalse =>
          split at h
          case isTrue hcode =>
              obtain ⟨⟨times, mid⟩, htimes, h⟩ := Option.bind_eq_some_iff.mp h
              obtain ⟨⟨skip, rest'⟩, hskip, hsome⟩ := Option.bind_eq_some_iff.mp h
              cases hsome
              rw [encode, opcode, operands, opcodeByte_toNat b hcode, Leb.of_parse htimes,
                Leb.of_parse hskip]
              simp
          case isFalse =>
              split at h
              case h_1 op hop =>
                  cases h
                  rw [encode, opcode, operands, opcodeByte_toNat b (PlainOp.of_ofCode hop)]
                  rfl
              case h_2 =>
                  obtain ⟨op, hop, h⟩ := Option.bind_eq_some_iff.mp h
                  obtain ⟨⟨operand, rest'⟩, hoperand, hsome⟩ := Option.bind_eq_some_iff.mp h
                  cases hsome
                  rw [encode, opcode, operands, opcodeByte_toNat b (LebOp.of_ofCode hop),
                    Leb.of_parse hoperand]
                  rfl

end Item

/-! ## Streams -/

/-- The opcodes of a stream, with as many steps as it may have. -/
def decodeFrom : Nat → Bytes → Option (List Item)
  | _, [] => some []
  | 0, _ :: _ => none
  | steps + 1, b :: data => do
      let (item, rest) ← Item.decode (b :: data)
      let items ← decodeFrom steps rest
      some (item :: items)

/-- **The opcodes of a stream**, `none` where it is not well formed. -/
def decode (data : Bytes) : Option (List Item) := decodeFrom data.length data

def encode (items : List Item) : Bytes := items.flatMap Item.encode

theorem encode_cons (item : Item) (items : List Item) :
    encode (item :: items) = item.encode ++ encode items := List.flatMap_cons

theorem length_le_encode (items : List Item) : items.length ≤ (encode items).length := by
  induction items with
  | nil => exact Nat.zero_le _
  | cons item items ih =>
      rw [encode_cons, List.length_append, Item.encode, List.length_cons, List.length_cons]
      omega

theorem decodeFrom_encode (items : List Item) (steps : Nat) (h : items.length ≤ steps) :
    decodeFrom steps (encode items) = some items := by
  induction items generalizing steps with
  | nil => cases steps <;> rfl
  | cons item items ih =>
      cases steps with
      | zero => cases h
      | succ steps =>
          have hitem := item.decode_encode (encode items)
          rw [Item.encode, List.cons_append] at hitem
          rw [encode_cons, Item.encode, List.cons_append, decodeFrom, hitem]
          simp only [Option.bind_eq_bind, Option.bind_some, ih steps (Nat.le_of_succ_le_succ h)]

theorem decode_encode (items : List Item) : decode (encode items) = some items :=
  decodeFrom_encode items _ (length_le_encode items)

theorem encode_of_decodeFrom {steps : Nat} {data : Bytes} {items : List Item}
    (h : decodeFrom steps data = some items) : encode items = data := by
  induction steps generalizing data items with
  | zero =>
      cases data with
      | nil =>
          cases h
          rfl
      | cons b data => cases h
  | succ steps ih =>
      cases data with
      | nil =>
          cases h
          rfl
      | cons b data =>
          obtain ⟨⟨item, rest⟩, hitem, h⟩ := Option.bind_eq_some_iff.mp h
          obtain ⟨items', hitems, hsome⟩ := Option.bind_eq_some_iff.mp h
          cases hsome
          rw [encode_cons, ih hitems, ← Item.of_decode hitem]

/-- **A stream is what its opcodes are written as.** -/
theorem encode_of_decode {data : Bytes} {items : List Item} (h : decode data = some items) :
    encode items = data :=
  encode_of_decodeFrom h

end Katabasis.BindOpcodes
