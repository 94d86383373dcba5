import Katabasis.ObjC.Image

set_option autoImplicit false

/-! # The metadata in full

The records of `xlate/src/objc.h` with every field that `AnalyzeObjC` reads, as the manifest needs
them. The passes over the classes work on the records of `ObjC/Image.lean`, which are these with
fewer fields (`ObjCImage.outline`).
-/

namespace Katabasis.Metadata

/-- The addresses are the guest's, of the texts and of the implementation. -/
structure Method where
  selector : String := ""
  types : String := ""
  nameAddress : UInt64 := 0
  typesAddress : UInt64 := 0
  imp : UInt64 := 0
  deriving DecidableEq, Repr

/-- An instance variable, with the variable that holds its offset and what stands there. -/
structure Ivar where
  name : String := ""
  type : String := ""
  offsetAddress : UInt64 := 0
  offsetValue : UInt32 := 0
  nameAddress : UInt64 := 0
  typeAddress : UInt64 := 0
  alignment : UInt32 := 0
  size : UInt32 := 0
  deriving DecidableEq, Repr

structure Property where
  name : String := ""
  attributes : String := ""
  nameAddress : UInt64 := 0
  attributesAddress : UInt64 := 0
  deriving DecidableEq, Repr

structure ObjCProtocol where
  address : UInt64 := 0
  name : String := ""
  nameAddress : UInt64 := 0
  protocols : List UInt64 := []
  instanceMethods : List Method := []
  classMethods : List Method := []
  optionalInstanceMethods : List Method := []
  optionalClassMethods : List Method := []
  properties : List Property := []
  flags : UInt32 := 0
  size : UInt32 := 0
  deriving DecidableEq, Repr

/-- The `class_ro_t` of a class or a metaclass. -/
structure ClassData where
  flags : UInt32 := 0
  instanceStart : UInt32 := 0
  instanceSize : UInt32 := 0
  name : String := ""
  nameAddress : UInt64 := 0
  methods : List Method := []
  ivars : List Ivar := []
  properties : List Property := []
  protocols : List UInt64 := []
  deriving DecidableEq, Repr

/-- A class object with its metaclass. -/
structure ObjCClass where
  address : UInt64 := 0
  /-- The data word carries the Swift flags. -/
  swift : Bool := false
  superclass : Pointer := .null
  data : ClassData := {}
  metaclass : UInt64 := 0
  metaIsa : Pointer := .null
  metaSuperclass : Pointer := .null
  metaData : ClassData := {}
  deriving DecidableEq, Repr

structure ObjCCategory where
  name : String := ""
  nameAddress : UInt64 := 0
  cls : Pointer := .null
  instanceMethods : List Method := []
  classMethods : List Method := []
  properties : List Property := []
  protocols : List UInt64 := []
  deriving DecidableEq, Repr

/-- An entry of `__objc_selrefs`. -/
structure SelectorReference where
  slot : UInt64 := 0
  string : UInt64 := 0
  selector : String := ""
  deriving DecidableEq, Repr

structure ObjCImage where
  classes : List ObjCClass := []
  /-- The class objects and metaclasses that hold a `class_ro_t` of `__objc_clsrolist`. -/
  swiftStaticClasses : List UInt64 := []
  /-- The superclasses of the classes among them. -/
  clsrolistSuperclass : List (UInt64 × Pointer) := []
  /-- Those among them that `__objc_classlist` has as well. -/
  swiftListedClasses : List UInt64 := []
  clsrolistCount : UInt64 := 0
  /-- How many entries of `__objc_clsrolist` no class object holds. -/
  clsrolistUnowned : UInt64 := 0
  categories : List ObjCCategory := []
  protocols : List ObjCProtocol := []
  strings : List ConstantString := []
  selectors : List SelectorReference := []
  errors : List String := []

/-! ## The fields that the passes read -/

def Method.outline (method : Method) : Katabasis.Method :=
  { selector := method.selector, types := method.types, imp := method.imp }

def Property.outline (property : Property) : Katabasis.Property :=
  { name := property.name, attributes := property.attributes }

def ObjCProtocol.outline (protocol : ObjCProtocol) : Katabasis.ObjCProtocol where
  address := protocol.address
  nameAddress := protocol.nameAddress
  protocols := protocol.protocols
  instanceMethods := protocol.instanceMethods.map Method.outline
  classMethods := protocol.classMethods.map Method.outline
  optionalInstanceMethods := protocol.optionalInstanceMethods.map Method.outline
  optionalClassMethods := protocol.optionalClassMethods.map Method.outline
  properties := protocol.properties.map Property.outline
  flags := protocol.flags
  size := protocol.size

def ObjCClass.outline (cls : ObjCClass) : Katabasis.ObjCClass where
  address := cls.address
  swift := cls.swift
  superclass := cls.superclass
  name := cls.data.name
  metaclass := cls.metaclass
  metaIsa := cls.metaIsa
  metaSuperclass := cls.metaSuperclass

def ObjCCategory.outline (category : ObjCCategory) : Katabasis.ObjCCategory :=
  { name := category.name, cls := category.cls }

def ObjCImage.outline (image : ObjCImage) : Katabasis.ObjCImage where
  classes := image.classes.map ObjCClass.outline
  swiftStaticClasses := image.swiftStaticClasses
  clsrolistSuperclass := image.clsrolistSuperclass
  swiftListedClasses := image.swiftListedClasses
  categories := image.categories.map ObjCCategory.outline
  protocols := image.protocols.map ObjCProtocol.outline
  strings := image.strings

end Katabasis.Metadata
