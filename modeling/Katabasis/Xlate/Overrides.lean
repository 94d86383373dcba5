import Katabasis.ObjC.Image
import Katabasis.Xlate.Layout

set_option autoImplicit false

/-! # Constants written over the guest's data

`ObjCOverrides` (`xlate/src/xlate.cpp`): the Objective-C structures that the host runtime reads
are written in the host's layout, each over the guest structure it replaces. An `Override`
carries the proof that its fields have the size it declares.
-/

namespace Katabasis

open Std

/-- An LLVM constant of the emitted module, as far as the bytes it stands for are concerned. -/
inductive Constant
  | int32 (value : UInt32)
  | int64 (value : UInt64)
  /-- The address of a symbol as an `i32`, plus an addend. -/
  | address (symbol : String) (addend : UInt32)
  /-- The packed pair of such an address and a zero `i32`. -/
  | wideAddress (symbol : String) (addend : UInt32)
  | zeros (count : Nat)
  | data (bytes : List UInt8)
  deriving DecidableEq, Repr

def Constant.size : Constant → Nat
  | int32 _ => 4
  | int64 _ => 8
  | address _ _ => 4
  | wideAddress _ _ => 8
  | zeros count => count
  | data bytes => bytes.length

structure Override where
  fields : List Constant
  size : UInt64
  /-- The global of its own that the override becomes, if it has one. -/
  globalName : Option String := none
  size_fields : (fields.map Constant.size).sum = size.toNat
  size_pos : 0 < size

/-- `std::map<uint64_t, Override>`, by host address. -/
abbrev Overrides := ExtTreeMap UInt64 Override

/-- `format_hex_no_prefix(value, 8)` -/
def Hex (value : UInt64) : String :=
  let digits := Nat.toDigits 16 value.toNat
  String.ofList (List.replicate (8 - digits.length) '0' ++ digits)

def guestClassName (address : UInt64) : String := "xl_guest_class_" ++ Hex address

/-- The addresses that have a class global: every class and its metaclass. -/
def classGlobals (objc : List ObjCImage) : List UInt64 :=
  objc.flatMap fun image => image.classes.flatMap fun cls => [cls.address, cls.metaclass]

/-- `symbol`: the address of a host symbol, which the source names without its underscore. -/
def hostSymbol (name : String) : Constant := .address ("_" ++ name) 0

def pointerConstant (classes : List UInt64) : Pointer → Constant
  | .localTo host =>
      if classes.contains host then .address (guestClassName host) 0 else .int32 host.toUInt32
  | .raw host => .int32 host.toUInt32
  | .imported symbol _ => .address symbol 0
  | .null => .int32 0

theorem size_pointerConstant (classes : List UInt64) (value : Pointer) :
    (pointerConstant classes value).size = 4 := by
  cases value with
  | localTo host =>
      rw [pointerConstant]
      split <;> rfl
  | _ => rfl

/-- A class object: isa, superclass, and the runtime's own words. -/
def classObject (classes : List UInt64) (isa superclass : Pointer) (ro : String)
    (address : UInt64) : Override where
  fields := [pointerConstant classes isa, pointerConstant classes superclass,
    hostSymbol "_objc_empty_cache", hostSymbol "_objc_empty_vtable", hostSymbol ro, .zeros 20]
  size := 40
  globalName := some (guestClassName address)
  size_fields := by
    simp only [List.map_cons, List.map_nil, size_pointerConstant]
    rfl
  size_pos := by decide

/-- The bytes a protocol override takes: the guest structure's, where that says its size. -/
def protocolSize (protocol : ObjCProtocol) : UInt64 :=
  if protocol.size ≥ 44 then protocol.size.toUInt64 else 96

theorem protocolSize_ge (protocol : ObjCProtocol) : 44 ≤ (protocolSize protocol).toNat := by
  unfold protocolSize
  split
  case isTrue h =>
      rw [UInt32.toNat_toUInt64]
      exact UInt32.le_iff_toNat_le.mp h
  case isFalse => decide

def protocolPart (protocol : ObjCProtocol) (part : String) : String :=
  "xl_objc_proto_" ++ Hex protocol.address ++ "_" ++ part

/-- A list of the protocol: the address of its host form, or null where it is empty. -/
def protocolList (protocol : ObjCProtocol) (isPresent : Bool) (part : String) : Constant :=
  if isPresent then hostSymbol (protocolPart protocol part) else .int32 0

theorem size_protocolList (protocol : ObjCProtocol) (isPresent : Bool) (part : String) :
    (protocolList protocol isPresent part).size = 4 := by
  unfold protocolList
  split <;> rfl

def protocolObject (protocol : ObjCProtocol) : Override where
  fields := [.int32 0, .int32 protocol.nameAddress.toUInt32,
    protocolList protocol (!protocol.protocols.isEmpty) "protocols",
    protocolList protocol (!protocol.instanceMethods.isEmpty) "instance",
    protocolList protocol (!protocol.classMethods.isEmpty) "class",
    protocolList protocol (!protocol.optionalInstanceMethods.isEmpty) "optional_instance",
    protocolList protocol (!protocol.optionalClassMethods.isEmpty) "optional_class",
    protocolList protocol (!protocol.properties.isEmpty) "properties",
    .int32 40, .int32 protocol.flags, .int32 0, .zeros ((protocolSize protocol).toNat - 44)]
  size := protocolSize protocol
  globalName := some ("xl_guest_protocol_" ++ Hex protocol.address)
  size_fields := by
    have := protocolSize_ge protocol
    simp only [List.map_cons, List.map_nil, size_protocolList, List.sum_cons, List.sum_nil]
    simp only [Constant.size]
    omega
  size_pos := by
    have := protocolSize_ge protocol
    rw [UInt64.lt_iff_toNat_lt]
    show 0 < _
    omega

def constantStringObject (string : ConstantString) : Override where
  fields := [hostSymbol "__CFConstantStringClassReference", .int32 string.flags,
    .int32 string.string.toUInt32, .int32 string.length.toUInt32, .zeros 16]
  size := 32
  size_fields := rfl
  size_pos := by decide

/-- The overrides of one image, in the order they are entered. -/
def imageOverrides (classes : List UInt64) (index : Nat) (image : ObjCImage) :
    List (UInt64 × Override) :=
  (image.classes.zipIdx.flatMap fun (cls, position) =>
    let suffix := toString index ++ "_" ++ toString position
    [(cls.address, classObject classes (.localTo cls.metaclass) cls.superclass
        ("xl_objc_ro_" ++ suffix) cls.address),
      (cls.metaclass, classObject classes cls.metaIsa cls.metaSuperclass
        ("xl_objc_metaro_" ++ suffix) cls.metaclass)]) ++
  (image.protocols.map fun protocol => (protocol.address, protocolObject protocol)) ++
  image.strings.map fun string => (string.address, constantStringObject string)

def objcOverrides (objc : List ObjCImage) : Overrides :=
  (objc.zipIdx.flatMap fun (image, index) =>
      imageOverrides (classGlobals objc) index image).foldl
    (fun overrides entry => overrides.insert entry.1 entry.2) ∅

end Katabasis
