import Katabasis.Macho.Image

set_option autoImplicit false

/-! # The Objective-C metadata of a guest image

What `AnalyzeObjC` reads from an image (`xlate/src/objc.h`): classes, protocols, constant
strings, categories, and the classes Swift laid out statically. Addresses are those of the
placed image. Only what the modelled passes read is kept.
-/

namespace Katabasis

/-- A pointer in the metadata: to a place in a guest image, to a symbol of another library, a
bare value, or none. -/
inductive Pointer
  | null
  | localTo (host : UInt64)
  | imported (symbol library : String)
  | raw (host : UInt64)
  deriving DecidableEq, Repr

structure Method where
  selector : String
  types : String
  imp : UInt64 := 0
  deriving DecidableEq, Repr

structure Property where
  name : String
  attributes : String
  deriving DecidableEq, Repr

structure ObjCProtocol where
  address : UInt64
  nameAddress : UInt64 := 0
  protocols : List UInt64 := []
  instanceMethods : List Method := []
  classMethods : List Method := []
  optionalInstanceMethods : List Method := []
  optionalClassMethods : List Method := []
  properties : List Property := []
  flags : UInt32 := 0
  size : UInt32 := 0

structure ObjCClass where
  address : UInt64
  /-- Swift's class metadata: the data word carries the Swift flags in its low bits. -/
  swift : Bool := false
  superclass : Pointer := .null
  name : String := ""
  metaclass : UInt64 := 0
  metaIsa : Pointer := .null
  metaSuperclass : Pointer := .null
  deriving DecidableEq, Repr

structure ObjCCategory where
  name : String
  cls : Pointer := .null
  deriving DecidableEq, Repr

structure ConstantString where
  address : UInt64
  flags : UInt32 := 0
  string : UInt64 := 0
  length : UInt64 := 0

structure ObjCImage where
  classes : List ObjCClass := []
  /-- Class objects (and metaclasses) listed in `__objc_clsrolist` only. -/
  swiftStaticClasses : List UInt64 := []
  /-- The superclass of the class half of each `__objc_clsrolist`-only pair. -/
  clsrolistSuperclass : List (UInt64 × Pointer) := []
  /-- The static classes that `__objc_classlist` lists. -/
  swiftListedClasses : List UInt64 := []
  categories : List ObjCCategory := []
  protocols : List ObjCProtocol := []
  strings : List ConstantString := []

end Katabasis
