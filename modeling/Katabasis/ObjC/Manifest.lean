import Katabasis.Lib.Json
import Katabasis.ObjC.Metadata

set_option autoImplicit false

/-! # The manifest, as it is written

`WriteManifest` (`xlate/src/objc.cpp`): the metadata of the guest images as a JSON document, for
`xlgen`. An address is written as the signed number of the same 64 bits.
-/

namespace Katabasis.Metadata

open Json

def writeAddress (address : UInt64) : Json := .integer address.toInt64

def writeNumber (number : UInt32) : Json := .integer number.toUInt64.toInt64

/-- `WritePointer` -/
def writePointer : Pointer → Json
  | .null => .object [("kind", .string "null")]
  | .localTo host => .object [("kind", .string "local"), ("address", writeAddress host)]
  | .imported symbol _ => .object [("kind", .string "import"), ("symbol", .string symbol)]
  | .raw host => .object [("kind", .string "raw"), ("address", writeAddress host)]

def writeMethod (method : Method) : Json :=
  .object
    [("selector", .string method.selector), ("types", .string method.types),
      ("name_address", writeAddress method.nameAddress), ("imp", writeAddress method.imp)]

/-- `WriteMethods` -/
def writeMethods (methods : List Method) : Json := .array (methods.map writeMethod)

def writeProperty (property : Property) : Json :=
  .object
    [("name", .string property.name), ("attributes", .string property.attributes),
      ("name_address", writeAddress property.nameAddress),
      ("attributes_address", writeAddress property.attributesAddress)]

/-- `WriteProperties` -/
def writeProperties (properties : List Property) : Json := .array (properties.map writeProperty)

/-- `WriteAddresses` -/
def writeAddresses (addresses : List UInt64) : Json := .array (addresses.map writeAddress)

def writeIvar (ivar : Ivar) : Json :=
  .object
    [("name", .string ivar.name), ("type", .string ivar.type),
      ("offset_address", writeAddress ivar.offsetAddress),
      ("offset_value", writeNumber ivar.offsetValue),
      ("name_address", writeAddress ivar.nameAddress),
      ("type_address", writeAddress ivar.typeAddress),
      ("alignment", writeNumber ivar.alignment), ("size", writeNumber ivar.size)]

/-- `WriteData` -/
def writeData (data : ClassData) : Json :=
  .object
    [("flags", writeNumber data.flags), ("instance_start", writeNumber data.instanceStart),
      ("instance_size", writeNumber data.instanceSize), ("name", .string data.name),
      ("name_address", writeAddress data.nameAddress), ("methods", writeMethods data.methods),
      ("ivars", .array (data.ivars.map writeIvar)),
      ("properties", writeProperties data.properties),
      ("protocols", writeAddresses data.protocols)]

def writeClass (cls : ObjCClass) : Json :=
  .object
    [("address", writeAddress cls.address), ("metaclass", writeAddress cls.metaclass),
      ("superclass", writePointer cls.superclass), ("meta_isa", writePointer cls.metaIsa),
      ("meta_superclass", writePointer cls.metaSuperclass), ("data", writeData cls.data),
      ("meta_data", writeData cls.metaData)]

def writeCategory (category : ObjCCategory) : Json :=
  .object
    [("name", .string category.name), ("name_address", writeAddress category.nameAddress),
      ("class", writePointer category.cls),
      ("instance_methods", writeMethods category.instanceMethods),
      ("class_methods", writeMethods category.classMethods),
      ("properties", writeProperties category.properties),
      ("protocols", writeAddresses category.protocols)]

def writeProtocol (protocol : ObjCProtocol) : Json :=
  .object
    [("address", writeAddress protocol.address), ("name", .string protocol.name),
      ("name_address", writeAddress protocol.nameAddress),
      ("flags", writeNumber protocol.flags), ("protocols", writeAddresses protocol.protocols),
      ("instance_methods", writeMethods protocol.instanceMethods),
      ("class_methods", writeMethods protocol.classMethods),
      ("optional_instance_methods", writeMethods protocol.optionalInstanceMethods),
      ("optional_class_methods", writeMethods protocol.optionalClassMethods),
      ("properties", writeProperties protocol.properties)]

def writeSelector (selref : SelectorReference) : Json :=
  .object [("slot", writeAddress selref.slot), ("selector", .string selref.selector)]

def writeImage (path : String) (index : Nat) (info : ObjCImage) : Json :=
  .object
    [("path", .string path), ("index", .integer (Int64.ofNat index)),
      ("errors", .array (info.errors.map .string)),
      ("classes", .array (info.classes.map writeClass)),
      ("swift_static_classes", writeAddresses info.swiftStaticClasses),
      ("swift_listed_classes", writeAddresses info.swiftListedClasses),
      ("clsrolist_count", writeAddress info.clsrolistCount),
      ("clsrolist_unowned", writeAddress info.clsrolistUnowned),
      ("categories", .array (info.categories.map writeCategory)),
      ("protocols", .array (info.protocols.map writeProtocol)),
      ("selectors", .array (info.selectors.map writeSelector)),
      ("constant_strings", .integer (Int64.ofNat info.strings.length))]

/-- `WriteManifest`, of images with their paths. -/
def writeManifest (images : List (String × ObjCImage)) : Json :=
  .object
    [("images", .array (images.zipIdx.map fun image =>
      writeImage image.1.1 image.2 image.1.2))]

end Katabasis.Metadata
